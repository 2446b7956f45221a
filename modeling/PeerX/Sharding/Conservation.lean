import PeerX.Sharding.Rebalance
import PeerX.Foundations.Distribution

/-!
# Sharding: what a rebalancing conserves

The primary keys of a shard are distinct, but those of different shards may overlap. A record that
is saved on a shard with another record of its key overwrites it, and one that the unique index
refuses is removed. So a rebalancing conserves the records exactly when no two records meet on a
shard on which they clash, as long as no statement fails.
-/

namespace Sharding

open Concurrency Relational Distribution

variable (env : Environment) (map : ShardMap) (foreignKeys : Bool) (now : ℤ) (entity : Entity)

/-- The content of a record: all columns but the primary key. -/
def Entity.content : (entity : Entity) → entity.Row → entity.Draft
  | .trade, row => { Entity.draft .trade row with id := none }
  | .userBalance, row => { Entity.draft .userBalance row with id := none }
  | .virtualAsset, row => { Entity.draft .virtualAsset row with id := none }

/-- The records of an entity class on a shard. -/
def recordsOn (d : String → DataSource) (shardId : String) : List (Stored entity) := (d shardId entity).rows

/-- The shard that a stored record is assigned to. -/
def target {entity : Entity} (record : Stored entity) : Option String := targetShard env map now record.row

/-- The records are conserved: their contents are the same, and each lies on the shard it is
assigned to. -/
structure Conserved (d d' : String → DataSource) : Prop where
  contents : ((rowsAt map.shards (recordsOn entity d')).map fun record => entity.content record.row).Perm
    ((rowsAt map.shards (recordsOn entity d)).map fun record => entity.content record.row)
  placed : ∀ shardId ∈ map.shards, ∀ record ∈ recordsOn entity d' shardId,
    target env map now record = some shardId

/-- No two records clash. Each record is assigned to a shard, which stores the asset it refers
to. Two records of different shards with the same primary key are assigned to different shards, and
the first one is not assigned to the shard that the second one still lies on. Two records of
different shards have different entries in the unique index. -/
structure ClashFree (d : String → DataSource) : Prop where
  targets : ∀ shardId ∈ map.shards, ∀ record ∈ recordsOn entity d shardId, ∃ targetShardId ∈ map.shards,
    target env map now record = some targetShardId ∧
      (targetShardId ≠ shardId → foreignKeys → (d targetShardId).References record.row)
  apart : map.shards.Pairwise fun shardId shardId' => ∀ record ∈ recordsOn entity d shardId,
    ∀ record' ∈ recordsOn entity d shardId', record.key = record'.key →
      target env map now record ≠ target env map now record' ∧ target env map now record ≠ some shardId'
  distinct : map.shards.Pairwise fun shardId shardId' => ∀ record ∈ recordsOn entity d shardId,
    ∀ record' ∈ recordsOn entity d shardId', record.index = record'.index → record.index = none

variable {env map foreignKeys now entity}

/-- Balances of one entry in the unique index are of one user, and so they are assigned to one
shard. -/
theorem target_of_index (hentity : entity ≠ .virtualAsset) {record record' : Stored entity}
    (hindex : record.index = record'.index) (hsome : (record.index).isSome) :
    target env map now record = target env map now record' := by
  cases entity with
  | trade => cases hsome
  | userBalance =>
    have huser : record.row.userId = record'.row.userId := (Prod.mk.inj (Option.some.inj hindex)).1
    unfold target targetShard rebalanceStrategy userStrategy
    simp only [Entity.data, Entity.draft, huser]
  | virtualAsset => exact absurd rfl hentity

theorem rebalanceEntity_cons (fuel : ℕ) (fromShardId : String) (shardIds : List String) :
    (rebalanceEntity env map now fuel (fromShardId :: shardIds) : RowTask entity Bool) =
      tryCatch (rebalanceShard env map now fromShardId fuel) (fun _ => pure true) >>= fun ended =>
        if ended then rebalanceEntity env map now fuel shardIds else return false := rfl

theorem rebalanceEntity_append {fuel : ℕ} {shardIds shardIds' : List String} {db db' : ShardDb}
    (h : (rebalanceEntity env map now fuel (shardIds ++ shardIds') : RowTask entity Bool).eval (serveRow foreignKeys) db =
      (.ok true, db')) :
    ∃ db₁, (rebalanceEntity env map now fuel shardIds : RowTask entity Bool).eval (serveRow foreignKeys) db =
        (.ok true, db₁) ∧
      (rebalanceEntity env map now fuel shardIds' : RowTask entity Bool).eval (serveRow foreignKeys) db₁ =
        (.ok true, db') := by
  induction shardIds generalizing db with
  | nil => exact ⟨db, rfl, h⟩
  | cons fromShardId shardIds ih =>
    obtain ⟨ended, db₁, hfirst, hrest⟩ := Prog.eval_bind_ok (serveRow foreignKeys) h
    cases ended with
    | false => cases hrest
    | true =>
      obtain ⟨db₂, hleft, hright⟩ := ih hrest
      refine ⟨db₂, ?_, hright⟩
      rw [rebalanceEntity_cons, Prog.eval_bind, hfirst]
      exact hleft

theorem pairwise_of_split {α : Type} {R : α → α → Prop} {l : List α}
    (h : ∀ pre a post, l = pre ++ a :: post → ∀ b ∈ post, R a b) : l.Pairwise R := by
  induction l with
  | nil => exact List.Pairwise.nil
  | cons a l ih =>
    refine List.Pairwise.cons (fun b hb => h [] a l rfl b hb) (ih fun pre x post hsplit => ?_)
    exact h (a :: pre) x post (by rw [hsplit, List.cons_append])

theorem mem_of_split {l pre post : List String} {A Q : String} (hnodup : l.Nodup) (hsplit : l = pre ++ A :: post)
    (hQ : Q ∈ post) : A ∈ l ∧ Q ∈ l ∧ A ≠ Q ∧ ∀ A' ∈ pre ++ [A], A' ∈ l ∧ A' ≠ Q := by
  subst hsplit
  grind

theorem moves_of_eval (hentity : entity ≠ .virtualAsset) {fuel : ℕ} {shardIds : List String} {db db' : ShardDb}
    (hrun : (rebalanceEntity env map now fuel shardIds : RowTask entity Bool).eval (serveRow foreignKeys) db =
      (.ok true, db')) :
    Moves env map foreignKeys now entity shardIds db.sources db'.sources := by
  have hmoves : (rebalanceEntity env map now fuel shardIds : RowTask entity Bool).Yields (serveRow foreignKeys) db
      fun _ db' => Moves env map foreignKeys now entity shardIds db.sources db'.sources :=
    moves_rebalanceEntity hentity fuel shardIds db
  rwa [Prog.Yields, hrun] at hmoves

variable (env map now entity) in
/-- The records have arrived: each is assigned to a shard and lies on it, and records of
different shards with the same primary key are assigned to different shards. -/
structure Arrived (d d' : String → DataSource) : Prop where
  assigned : ∀ {A : String} {r : Stored entity}, A ∈ map.shards → r ∈ recordsOn entity d A →
    ∃ T ∈ map.shards, target env map now r = some T
  lies : ∀ {A T : String} {r : Stored entity}, A ∈ map.shards → T ∈ map.shards → r ∈ recordsOn entity d A →
    target env map now r = some T → r ∈ recordsOn entity d' T
  target_ne : ∀ {A Q : String} {r q : Stored entity}, A ∈ map.shards → Q ∈ map.shards → A ≠ Q →
    r ∈ recordsOn entity d A → q ∈ recordsOn entity d Q → r.key = q.key → target env map now r ≠ target env map now q

variable {d d₁ d' : String → DataSource}

/-- Moves that conserve the records: each shard ends up with the records that are assigned to it. -/
theorem Conserved.arrived (h : Conserved env map now entity d d')
    (hmoves : Moves env map foreignKeys now entity map.shards d d') : Arrived env map now entity d d' := by
  have hplaced : ∀ shardId ∈ map.shards, ∀ record ∈ recordsOn entity d' shardId,
      record ∈ rowsAt map.shards (recordsOn entity d) ∧ target env map now record = some shardId := by
    intro shardId hshard record hrecord
    refine ⟨?_, h.placed shardId hshard record hrecord⟩
    rcases hmoves.came shardId record hrecord with hold | ⟨-, -, fromShardId, hfrom, -, hold⟩
    · exact mem_rowsAt.mpr ⟨shardId, hshard, hold⟩
    · exact mem_rowsAt.mpr ⟨fromShardId, hfrom, hold⟩
  have hcount : (rowsAt map.shards (recordsOn entity d')).length = (rowsAt map.shards (recordsOn entity d)).length := by
    simpa using h.contents.length_eq
  have hrows : ∀ shardId ∈ map.shards, (recordsOn entity d' shardId).Nodup := fun shardId _ =>
    List.Nodup.of_map _ (d' shardId entity).nodup
  obtain ⟨hassigned, hperm⟩ := perm_of_placed map.nodup hrows hplaced hcount
  constructor
  · intro A r hA hr
    exact hassigned r (mem_rowsAt.mpr ⟨A, hA, hr⟩)
  · intro A T r hA hT hr htarget
    exact (hperm T hT).mem_iff.mpr (mem_assignedTo.mpr ⟨mem_rowsAt.mpr ⟨A, hA, hr⟩, htarget⟩)
  · intro A Q r q hA hQ hne hr hq hkey htarget
    obtain ⟨T, hT, hrT⟩ := hassigned r (mem_rowsAt.mpr ⟨A, hA, hr⟩)
    have hnodup := ((hperm T hT).map Stored.key).nodup_iff.mp (d' T entity).nodup
    exact key_ne_of_nodup hnodup hA hQ hne hr hq hrT (htarget ▸ hrT) hkey

/-- A record that comes to the shard of another one of its key, before that one has left,
overwrites it. So the records have not all arrived. -/
theorem Arrived.target_ne_later (h : Arrived env map now entity d d') {pre post : List String} {A Q : String}
    {r q : Stored entity} (hsplit : map.shards = pre ++ A :: post) (hQ : Q ∈ post)
    (hbefore : Moves env map foreignKeys now entity (pre ++ [A]) d d₁)
    (hafter : Moves env map foreignKeys now entity post d₁ d') (hr : r ∈ recordsOn entity d A)
    (hq : q ∈ recordsOn entity d Q) (hkey : r.key = q.key) : target env map now r ≠ some Q := by
  intro hrQ
  obtain ⟨hA, hQs, hne, hpre⟩ := mem_of_split map.nodup hsplit hQ
  have htargets := h.target_ne hA hQs hne hr hq hkey
  obtain ⟨T, hT, hqT⟩ := h.assigned hQs hq
  have hTQ : T ≠ Q := by
    rintro rfl
    exact htargets (hrQ.trans hqT.symm)
  have hmoved : r ∈ recordsOn entity d₁ Q := by
    rcases hafter.came Q r (h.lies hA hQs hr hrQ) with hmiddle | ⟨-, -, A', hA', hne', hmiddle⟩
    · exact hmiddle
    · obtain ⟨-, hA's, hAA', -⟩ := mem_of_split map.nodup hsplit hA'
      rcases hbefore.came A' r hmiddle with hold | ⟨hrA', -⟩
      · exact absurd rfl (h.target_ne hA hA's hAA' hr hold rfl)
      · exact absurd (Option.some.inj (hrA'.symm.trans hrQ)) hne'
  have hgone : q ∉ recordsOn entity d₁ Q := fun hstays =>
    htargets (congrArg (target env map now) (Indexed.eq_of_key_eq hmoved hstays hkey))
  -- the second record is on its shard at the end, but can have come from nowhere
  rcases hafter.came T q (h.lies hQs hT hq hqT) with hmiddle | ⟨-, -, A', hA', hne', hmiddle⟩
  · rcases hbefore.came T q hmiddle with hold | ⟨-, -, A', hA', -, hold⟩
    · exact h.target_ne hT hQs hTQ hold hq rfl rfl
    · obtain ⟨hA's, hA'Q⟩ := hpre A' hA'
      exact h.target_ne hA's hQs hA'Q hold hq rfl rfl
  · rcases hbefore.came A' q hmiddle with hold | ⟨hqA', -⟩
    · by_cases hA'Q : A' = Q
      · subst hA'Q
        exact hgone hmiddle
      · obtain ⟨-, hA's, -⟩ := mem_of_split map.nodup hsplit hA'
        exact h.target_ne hA's hQs hA'Q hold hq rfl rfl
    · exact hne' (Option.some.inj (hqA'.symm.trans hqT))

/-- What a rebalancing that conserves the records needs, whatever fails. -/
theorem clashFree_of_conserved (hentity : entity ≠ .virtualAsset) {fuel : ℕ} {db db' : ShardDb}
    (hrun : (rebalanceEntity env map now fuel map.shards : RowTask entity Bool).eval (serveRow foreignKeys) db =
      (.ok true, db'))
    (h : Conserved env map now entity db.sources db'.sources) :
    ClashFree env map foreignKeys now entity db.sources := by
  have hmoves := moves_of_eval hentity hrun
  have harrived := h.arrived hmoves
  refine ⟨?_, ?_, ?_⟩
  · intro A hA r hr
    obtain ⟨T, hT, hrT⟩ := harrived.assigned hA hr
    refine ⟨T, hT, hrT, fun hne hforeign => ?_⟩
    rcases hmoves.came T r (harrived.lies hA hT hr hrT) with hold | ⟨-, hrefers, -⟩
    · exact absurd rfl (harrived.target_ne hT hA hne hold hr rfl)
    · exact hrefers hforeign
  · refine pairwise_of_split fun pre A post hsplit Q hQ r hr q hq hkey => ?_
    obtain ⟨hA, hQs, hne, -⟩ := mem_of_split map.nodup hsplit hQ
    refine ⟨harrived.target_ne hA hQs hne hr hq hkey, ?_⟩
    -- the run is split after the first of the two shards
    have hsplit' : map.shards = (pre ++ [A]) ++ post := by
      rw [hsplit, List.append_assoc]
      rfl
    rw [hsplit'] at hrun
    obtain ⟨db₁, hleft, hright⟩ := rebalanceEntity_append hrun
    exact harrived.target_ne_later hsplit hQ (moves_of_eval hentity hleft) (moves_of_eval hentity hright) hr hq hkey
  · refine pairwise_of_split fun pre A post hsplit Q hQ r hr q hq hindex => ?_
    obtain ⟨hA, hQs, hne, -⟩ := mem_of_split map.nodup hsplit hQ
    by_contra hsome
    have hsome : r.index.isSome := Option.isSome_iff_ne_none.mpr hsome
    obtain ⟨T, hT, hrT⟩ := harrived.assigned hA hr
    have htarget : target env map now r = target env map now q := target_of_index hentity hindex hsome
    have hsame : r = q := Indexed.eq_of_index_eq (harrived.lies hA hT hr hrT)
      (harrived.lies hQs hT hq (htarget ▸ hrT)) hindex hsome
    exact harrived.target_ne hA hQs hne hr hq (congrArg _ hsame) htarget

end Sharding
