import PeerX.Sharding.Settling
import PeerX.Sharding.Transactions

/-!
# Sharding: completed rebalancings

A rebalancing goes through the trades first, and then through the balances. It completes when there
are fewer records than a batch holds. When no statement fails, the records of an entity class are
conserved exactly when no two of them clash.

## Main results

* `rebalanced_of_few`: a rebalancing of few records completes, whatever fails
* `conserved_iff_clashFree`: when a completed rebalancing conserves the records
* `balance_overwritten`: a balance is lost for every hash
-/

namespace Sharding

open Concurrency Relational Distribution

variable {env : Environment} {map : ShardMap} {foreignKeys : Bool} {now : ℤ} {entity : Entity} {fuel : ℕ}
  {db db' : ShardDb}

/-- The loop of a shard with few records ends after its first read. -/
theorem ended_rebalanceShard {fromShardId : String}
    (hfew : (recordsOn entity db.sources fromShardId).length < batchSize) :
    (rebalanceShard env map now fromShardId (fuel + 1) : RowTask entity Bool).Yields (serveRow foreignKeys) db fun o _ =>
      ∀ ended, o = .ok ended → ended = true := by
  refine yields_issue_bind (fun records hreply => ?_) fun _ _ _ h => nomatch h
  have hlength : records.length < batchSize := by
    have hvalue : (recordsOn entity db.sources fromShardId).take batchSize = records := by
      unfold serveRow at hreply
      exact (Fate.reply_eq_ok.mp hreply).2
    rw [← hvalue, List.length_take]
    omega
  split
  · exact yields_ret fun _ h => (Except.ok.inj h).symm
  · refine yields_bind (P := fun _ _ => True) trivial (fun _ _ _ => ?_) fun _ _ _ _ h => nomatch h
    exact yields_ret fun _ h => (Except.ok.inj h).symm

/-- The records of a shard are among those of all shards. -/
theorem few_of_moves {shardIds : List String} {d d' : String → DataSource} {shardId : String}
    (hmoves : Moves env map foreignKeys now entity shardIds d d') (hshards : shardIds ⊆ map.shards)
    (hshard : shardId ∈ map.shards) :
    (recordsOn entity d' shardId).length ≤ (rowsAt map.shards (recordsOn entity d)).length := by
  refine (List.subperm_of_subset (List.Nodup.of_map _ (d' shardId entity).nodup) fun x hx => ?_).length_le
  rcases hmoves.came shardId x hx with hold | ⟨-, -, fromShardId, hfrom, -, hold⟩
  · exact mem_rowsAt.mpr ⟨shardId, hshard, hold⟩
  · exact mem_rowsAt.mpr ⟨fromShardId, hshards hfrom, hold⟩

/-- The shards are gone through to the end. `done` are those behind, since when the records moved
only. -/
theorem ended_rebalanceEntity (env : Environment) (foreignKeys : Bool) (now : ℤ) (hentity : entity ≠ .virtualAsset)
    (fuel : ℕ) (hfew : (rowsAt map.shards (recordsOn entity db.sources)).length < batchSize) {done shardIds : List String}
    {db₁ : ShardDb} (hshards : shardIds ⊆ map.shards) (hdone : done ⊆ map.shards)
    (hmoves : Moves env map foreignKeys now entity done db.sources db₁.sources) :
    (rebalanceEntity env map now (fuel + 1) shardIds : RowTask entity Bool).Yields (serveRow foreignKeys) db₁ fun o db' =>
      o = .ok true ∧ Moves env map foreignKeys now entity (done ++ shardIds) db.sources db'.sources := by
  induction shardIds generalizing done db₁ with
  | nil => exact yields_ret ⟨rfl, (List.append_nil done).symm ▸ hmoves⟩
  | cons fromShardId shardIds ih =>
    obtain ⟨hfrom, hshards⟩ := List.cons_subset.mp hshards
    -- the records have only moved, so this shard has few as well
    have hended := (few_of_moves hmoves hdone hfrom).trans_lt hfew
    have hshard : (tryCatch (rebalanceShard env map now fromShardId (fuel + 1) : RowTask entity Bool) fun _ =>
        pure true).Yields (serveRow foreignKeys) db₁ fun o db₂ =>
          o = .ok true ∧ Moves env map foreignKeys now entity [fromShardId] db₁.sources db₂.sources := by
      refine yields_tryCatch (P := fun o db₂ => (∀ ended, o = .ok ended → ended = true) ∧
        Moves env map foreignKeys now entity [fromShardId] db₁.sources db₂.sources) ?_ ?_ ?_
      · exact ⟨ended_rebalanceShard hended, moves_rebalanceShard hentity (fuel + 1) Moves.refl⟩
      · exact fun ended _ h => ⟨congrArg _ (h.1 ended rfl), h.2⟩
      · exact fun _ _ h => yields_ret ⟨rfl, h.2⟩
    refine yields_bind hshard ?_ ?_
    · rintro ended db₂ ⟨hok, hmoved⟩
      obtain rfl := Except.ok.inj hok
      rw [List.append_cons]
      refine ih hshards ?_ (hmoves.trans hentity hmoved)
      exact List.append_subset.mpr ⟨hdone, List.cons_subset.mpr ⟨hfrom, List.nil_subset _⟩⟩
    · rintro _ _ ⟨h, -⟩
      cases h

/-- **A rebalancing of few records completes**, whatever fails. -/
theorem rebalanced_of_few (env : Environment) (foreignKeys : Bool) (now : ℤ) (hentity : entity ≠ .virtualAsset) (fuel : ℕ)
    (hfew : (rowsAt map.shards (recordsOn entity db.sources)).length < batchSize) :
    ∃ db', rebalanced env map foreignKeys now entity (fuel + 1) db = some db' ∧
      Moves env map foreignKeys now entity map.shards db.sources db'.sources := by
  obtain ⟨hok, hmoves⟩ := ended_rebalanceEntity env foreignKeys now hentity fuel hfew
    (List.Subset.refl map.shards) (List.nil_subset _) Moves.refl
  refine ⟨_, ?_, hmoves⟩
  unfold rebalanced
  dsimp only
  rw [hok]

/-- The fates of the statements are used up in their order. -/
theorem fates_suffix (foreignKeys : Bool) {α : Type} (p : RowTask entity α) (db : ShardDb) :
    (p.eval (serveRow foreignKeys) db).2.fates <:+ db.fates := by
  induction p generalizing db with
  | ret a => exact List.suffix_refl _
  | fail e => exact List.suffix_refl _
  | call c k ih =>
    refine (ih _ _).trans ?_
    unfold serveRow
    split <;> exact List.tail_suffix _

/-- The rebalancing of an entity class is the run of its program. -/
theorem rebalanced_eq_some (h : rebalanced env map foreignKeys now entity fuel db = some db') :
    (rebalanceEntity env map now fuel map.shards : RowTask entity Bool).eval (serveRow foreignKeys) db =
      (.ok true, db') := by
  unfold rebalanced at h
  dsimp only at h
  split at h
  next hok => exact Prod.ext hok (Option.some.inj h)
  next => cases h

theorem calm_of_rebalanced (h : rebalanced env map foreignKeys now entity fuel db = some db') (hcalm : db.Calm) :
    db'.Calm := by
  have hsuffix := fates_suffix foreignKeys (rebalanceEntity env map now fuel map.shards : RowTask entity Bool) db
  rw [rebalanced_eq_some h] at hsuffix
  exact fun fate hfate => hcalm fate (hsuffix.subset hfate)

theorem others_of_rebalanced (hentity : entity ≠ .virtualAsset)
    (h : rebalanced env map foreignKeys now entity fuel db = some db') {other : Entity} (hother : other ≠ entity)
    (shardId : String) : db'.sources shardId other = db.sources shardId other := by
  have hmoves : (rebalanceEntity env map now fuel map.shards : RowTask entity Bool).Yields (serveRow foreignKeys) db
      fun _ db' => Moves env map foreignKeys now entity map.shards db.sources db'.sources :=
    moves_rebalanceEntity hentity fuel map.shards db
  rw [Prog.Yields, rebalanced_eq_some h] at hmoves
  exact hmoves.others shardId other hother

variable {d d' e e' : String → DataSource}

theorem recordsOn_congr (h : ∀ shardId, d shardId entity = e shardId entity) : recordsOn entity d = recordsOn entity e :=
  funext fun shardId => congrArg Indexed.rows (h shardId)

/-- A rebalancing of few trades and few balances completes, whatever fails. -/
theorem completed_of_few (env : Environment) (foreignKeys : Bool) (now : ℤ) (fuel : ℕ)
    (htrades : (rowsAt map.shards (recordsOn .trade db.sources)).length < batchSize)
    (hbalances : (rowsAt map.shards (recordsOn .userBalance db.sources)).length < batchSize) :
    ∃ db', rebalanceShards env map foreignKeys now (fuel + 1) db = some db' := by
  unfold rebalanceShards
  split
  · exact ⟨db, rfl⟩
  obtain ⟨db₁, hfirst, hmoves⟩ := rebalanced_of_few env foreignKeys now (by decide) fuel htrades
  have hsame : recordsOn .userBalance db₁.sources = recordsOn .userBalance db.sources :=
    recordsOn_congr fun shardId => hmoves.others shardId .userBalance (by decide)
  obtain ⟨db₂, hsecond, -⟩ := rebalanced_of_few env foreignKeys now (by decide) fuel
    (hsame.symm ▸ hbalances)
  exact ⟨db₂, by rw [hfirst, Option.bind_some, hsecond]⟩

theorem Conserved.congr (hd : ∀ shardId, d shardId entity = e shardId entity)
    (hd' : ∀ shardId, d' shardId entity = e' shardId entity) (h : Conserved env map now entity d d') :
    Conserved env map now entity e e' := by
  obtain ⟨hcontents, hplaced⟩ := h
  rw [recordsOn_congr hd, recordsOn_congr hd'] at hcontents
  rw [recordsOn_congr hd'] at hplaced
  exact ⟨hcontents, hplaced⟩

theorem Kept.congr (hd : ∀ shardId, d shardId entity = e shardId entity)
    (hd' : ∀ shardId, d' shardId entity = e' shardId entity) (h : Kept env map now entity d d') :
    Kept env map now entity e e' := by
  obtain ⟨hrecords, hplaced⟩ := h
  rw [recordsOn_congr hd, recordsOn_congr hd'] at hrecords
  rw [recordsOn_congr hd'] at hplaced
  exact ⟨hrecords, hplaced⟩

theorem ClashFree.congr (hd : ∀ shardId, d shardId entity = e shardId entity)
    (hassets : ∀ shardId, d shardId .virtualAsset = e shardId .virtualAsset)
    (h : ClashFree env map foreignKeys now entity d) : ClashFree env map foreignKeys now entity e := by
  obtain ⟨htargets, hapart, hdistinct⟩ := h
  rw [recordsOn_congr hd] at htargets hapart hdistinct
  refine ⟨fun shardId hshard record hrecord => ?_, hapart, hdistinct⟩
  obtain ⟨toShardId, hto, htarget, hrefers⟩ := htargets shardId hshard record hrecord
  refine ⟨toShardId, hto, htarget, fun hne hkeys => ?_⟩
  have hasset := hrefers hne hkeys
  cases entity with
  | userBalance =>
    unfold DataSource.References at hasset ⊢
    rwa [← hassets toShardId]
  | _ => trivial

/-- The records of fewer than two shards are conserved when they lie where they are assigned to. -/
theorem conserved_iff_of_few_shards (hfew : map.shards.length < 2) :
    Conserved env map now entity d d ↔ ClashFree env map foreignKeys now entity d := by
  have hall : ∀ shardId ∈ map.shards, ∀ other ∈ map.shards, other = shardId := by
    intro shardId hshard other hother
    match hshards : map.shards, hfew with
    | [], _ => simp [hshards] at hshard
    | [only], _ =>
      rw [hshards] at hshard hother
      rw [List.mem_singleton.mp hshard, List.mem_singleton.mp hother]
  have hpairs : ∀ R : String → String → Prop, map.shards.Pairwise R := fun R => by
    match map.shards, hfew with
    | [], _ => exact List.Pairwise.nil
    | [only], _ => exact List.pairwise_singleton R only
  constructor
  · intro h
    refine ⟨fun shardId hshard record hrecord => ?_, hpairs _, hpairs _⟩
    exact ⟨shardId, hshard, h.placed shardId hshard record hrecord, fun hne => absurd rfl hne⟩
  · intro h
    refine ⟨List.Perm.refl _, fun shardId hshard record hrecord => ?_⟩
    obtain ⟨toShardId, hto, htarget, -⟩ := h.targets shardId hshard record hrecord
    exact htarget.trans (congrArg some (hall shardId hshard toShardId hto))

/-- The rebalancing of an entity class in a completed run. The other class leaves its records as
they are. -/
theorem rebalanced_of_completed (hentity : entity ≠ .virtualAsset)
    (hrun : rebalanceShards env map foreignKeys now fuel db = some db') (hshards : ¬ map.shards.length < 2) :
    ∃ db₁ db₂, rebalanced env map foreignKeys now entity fuel db₁ = some db₂ ∧ (db.Calm → db₁.Calm) ∧
      (∀ shardId, db₁.sources shardId entity = db.sources shardId entity) ∧
      (∀ shardId, db₁.sources shardId .virtualAsset = db.sources shardId .virtualAsset) ∧
      ∀ shardId, db₂.sources shardId entity = db'.sources shardId entity := by
  unfold rebalanceShards at hrun
  rw [if_neg hshards] at hrun
  obtain ⟨db₁, htrades, hbalances⟩ := Option.bind_eq_some_iff.mp hrun
  cases entity with
  | trade =>
    have hafter := others_of_rebalanced (by decide) hbalances (by decide : Entity.trade ≠ .userBalance)
    exact ⟨db, db₁, htrades, id, fun _ => rfl, fun _ => rfl, fun shardId => (hafter shardId).symm⟩
  | userBalance =>
    have hbefore := fun (other : Entity) (h : other ≠ .trade) => others_of_rebalanced (by decide) htrades h
    exact ⟨db₁, db', hbalances, calm_of_rebalanced htrades, hbefore .userBalance (by decide),
      hbefore .virtualAsset (by decide), fun _ => rfl⟩
  | virtualAsset => exact absurd rfl hentity

/-- What a completed rebalancing that conserves the records needs, whatever fails. -/
theorem clashFree_of_completed (hentity : entity ≠ .virtualAsset)
    (hrun : rebalanceShards env map foreignKeys now fuel db = some db') (hshards : ¬ map.shards.length < 2)
    (h : Conserved env map now entity db.sources db'.sources) :
    ClashFree env map foreignKeys now entity db.sources := by
  obtain ⟨db₁, db₂, hclass, -, hsame, hassets, hend⟩ := rebalanced_of_completed hentity hrun hshards
  have hconserved := h.congr (fun shardId => (hsame shardId).symm) fun shardId => (hend shardId).symm
  exact (clashFree_of_conserved hentity (rebalanced_eq_some hclass) hconserved).congr hsame hassets

/-- A rebalancing of fewer than two shards does nothing. -/
theorem eq_of_completed (hrun : rebalanceShards env map foreignKeys now fuel db = some db')
    (hshards : map.shards.length < 2) : db = db' := by
  unfold rebalanceShards at hrun
  rw [if_pos hshards] at hrun
  exact Option.some.inj hrun

/-- A completed rebalancing without clashes keeps the records, when no statement fails. -/
theorem kept_of_completed (hentity : entity ≠ .virtualAsset)
    (hrun : rebalanceShards env map foreignKeys now fuel db = some db') (hcalm : db.Calm)
    (hclash : ClashFree env map foreignKeys now entity db.sources) :
    Kept env map now entity db.sources db'.sources := by
  by_cases hshards : map.shards.length < 2
  · obtain rfl := eq_of_completed hrun hshards
    exact ⟨List.Perm.refl _, ((conserved_iff_of_few_shards hshards).mpr hclash).placed⟩
  · obtain ⟨db₁, db₂, hclass, hstart, hsame, hassets, hend⟩ := rebalanced_of_completed hentity hrun hshards
    have hclash₁ := hclash.congr (fun shardId => (hsame shardId).symm) fun shardId => (hassets shardId).symm
    exact (kept_of_clashFree hentity (hstart hcalm) hclash₁ hclass).congr hsame hend

/-- **When a completed rebalancing conserves the records.** Whatever fails, records that are
conserved do not clash. When no statement fails, records that do not clash are conserved. -/
theorem conserved_iff_clashFree (hentity : entity ≠ .virtualAsset)
    (hrun : rebalanceShards env map foreignKeys now fuel db = some db') :
    (Conserved env map now entity db.sources db'.sources → ClashFree env map foreignKeys now entity db.sources) ∧
      (db.Calm → ClashFree env map foreignKeys now entity db.sources →
        Conserved env map now entity db.sources db'.sources) := by
  refine ⟨fun hconserved => ?_, fun hcalm hclash => (kept_of_completed hentity hrun hcalm hclash).conserved⟩
  by_cases hshards : map.shards.length < 2
  · obtain rfl := eq_of_completed hrun hshards
    exact (conserved_iff_of_few_shards hshards).mp hconserved
  · exact clashFree_of_completed hentity hrun hshards hconserved

/-- A store with one row. -/
def storeOf {entity : Entity} (record : Stored entity) : Store entity :=
  Indexed.empty.save record fun ⟨_, hq, _⟩ => List.not_mem_nil hq

/-- The first balance of a shard, of a user and an asset. -/
def firstBalance (assetId : ℕ) (userId : ℕ := 1) : Stored .userBalance where
  row :=
    { id := 1, userId, assetId, balance := 10, lockedBalance := 0, totalTrades := 0, cumulativePnL := 0
      totalTradeVolume := 0, lastTradeDate := none, totalInvested := 0, averageBuyPrice := 0, createdAt := 0
      updatedAt := 0 }
  strategy := "user"

def asset (id : ℕ) (symbol : String) : Stored .virtualAsset where
  row := { id, symbol, name := symbol, price := 1, createdAt := 0, updatedAt := 0 }
  strategy := "asset"

def twoAssets : Store .virtualAsset := (storeOf (asset 1 "BTC")).save (asset 2 "ETH") (by decide)

/-- Three shards. The text of user 1 has the hash 1, and that of user 10 has the hash 2. -/
def threeOnRing : ShardMap where
  shards := ["shard1", "shard2", "shard3"]
  hashRing := [⟨1, "shard3"⟩, ⟨2, "shard1"⟩, ⟨3, "shard2"⟩]

/-- Each shard has both assets. The first two have a balance with the same key, of different users,
that belongs elsewhere. -/
def misplaced : ShardDb where
  sources := fun shardId =>
    let assets := Function.update DataSource.empty .virtualAsset twoAssets
    if shardId = "shard1" then Function.update assets .userBalance (storeOf (firstBalance 1 1))
    else if shardId = "shard2" then Function.update assets .userBalance (storeOf (firstBalance 2 10))
    else assets

/-- The first balance is moved to the third shard, and the second one to the first. -/
theorem conserved_iff_clashFree_moved :
    ∃ db', rebalanceShards early1970 threeOnRing true 0 1 misplaced = some db' ∧
      ((rowsAt threeOnRing.shards (recordsOn .userBalance db'.sources)).map (·.row.userId) = [10, 1]) ∧
      Conserved early1970 threeOnRing 0 .userBalance misplaced.sources db'.sources := by
  have hrun : (rebalanceShards early1970 threeOnRing true 0 1 misplaced).any fun db' =>
      (rowsAt threeOnRing.shards (recordsOn .userBalance db'.sources)).map (·.row.userId) = [10, 1] := by
    decide +kernel
  obtain ⟨db', hdb', hmoved⟩ := (Option.any_eq_true _ _).mp hrun
  refine ⟨db', hdb', of_decide_eq_true hmoved,
    (conserved_iff_clashFree (by decide) hdb').2 (fun _ h => absurd h List.not_mem_nil) ⟨?_, ?_, ?_⟩⟩
  · decide +kernel
  · decide +kernel
  · decide +kernel

/-- Each shard has both assets, and one balance of the user. -/
def overlapping : ShardDb where
  sources := fun shardId => Function.update (Function.update DataSource.empty .virtualAsset twoAssets) .userBalance
    (storeOf (firstBalance (if shardId = "shard1" then 1 else 2)))

/-- The two shards, on the ring. -/
def twoOnRing (env : Environment) : ShardMap :=
  ShardMap.addShard env (ShardMap.addShard env {} "shard1") "shard2"

/-- **A balance is lost**: both balances of the user are assigned to one shard, and have the same
key there. No hash conserves them. -/
theorem balance_overwritten : ¬ ∃ (env : Environment) (foreignKeys : Bool), ∀ db',
    rebalanceShards env (twoOnRing env) foreignKeys 0 1 overlapping = some db' →
      Conserved env (twoOnRing env) 0 .userBalance overlapping.sources db'.sources := by
  rintro ⟨env, foreignKeys, hall⟩
  have hshards : (twoOnRing env).shards = ["shard1", "shard2"] := rfl
  have htrades : (rowsAt (twoOnRing env).shards (recordsOn .trade overlapping.sources)).length < batchSize := by
    rw [hshards]
    decide
  have hbalances : (rowsAt (twoOnRing env).shards (recordsOn .userBalance overlapping.sources)).length < batchSize := by
    rw [hshards]
    decide
  obtain ⟨db', hrun⟩ := completed_of_few env foreignKeys 0 0 htrades hbalances
  have hapart := (clashFree_of_completed (by decide) hrun (by rw [hshards]; decide) (hall db' hrun)).apart
  rw [hshards] at hapart
  have htargets := List.rel_of_pairwise_cons hapart (List.mem_singleton_self "shard2")
    (firstBalance 1) (by decide) (firstBalance 2) (by decide) rfl
  exact htargets.1 rfl

end Sharding
