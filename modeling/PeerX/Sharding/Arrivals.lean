import PeerX.Sharding.Conservation
import PeerX.Foundations.FateStreams

/-!
# Sharding: what can lie on a shard at its turn

Any statement of a rebalancing may throw, for ever. A shard that has few records is gone through
once, and each of its records is saved at most once. So what lies on a shard at its turn are its own
records, with some of those saved that the shards before it held for it.
-/

namespace Sharding

open Concurrency Relational Grouping

/-- The shards as a service. -/
def shardService (foreignKeys : Bool) (entity : Entity) :
    Service (RowCommand.Value : RowCommand entity → Type) String (String → DataSource) where
  value := fun sources c => c.value ⟨sources, []⟩
  effect := fun sources c => c.effect foreignKeys sources

variable {env : Environment} {map : ShardMap} {foreignKeys : Bool} {now : ℤ} {entity : Entity}

/-- Some of a list of records are saved, in their order. -/
inductive Saves (refers : Stored entity → Prop) : List (Stored entity) → Store entity →
    Store entity → Prop
  | nil (store : Store entity) : Saves refers [] store store
  | skip {record : Stored entity} {records : List (Stored entity)} {store store' : Store entity}
      (rest : Saves refers records store store') : Saves refers (record :: records) store store'
  | save {record : Stored entity} {records : List (Stored entity)} {store store' : Store entity}
      (hrefers : refers record) (hindex : ¬ store.Conflicts record)
      (rest : Saves refers records (store.save record hindex) store') :
      Saves refers (record :: records) store store'

variable {refers refers' : Stored entity → Prop} {records records' : List (Stored entity)}
  {store store' store'' : Store entity}

theorem Saves.none (records : List (Stored entity)) (store : Store entity) :
    Saves refers records store store := by
  induction records with
  | nil => exact .nil store
  | cons record records ih => exact .skip ih

theorem Saves.append (h : Saves refers records store store')
    (h' : Saves refers records' store' store'') :
    Saves refers (records ++ records') store store'' := by
  induction h with
  | nil => exact h'
  | skip _ ih => exact .skip (ih h')
  | save hrefers hindex _ ih => exact .save hrefers hindex (ih h')

/-- The saves of the first records, and those of the others. -/
theorem Saves.split (h : Saves refers (records ++ records') store store'') :
    ∃ store', Saves refers records store store' ∧ Saves refers records' store' store'' := by
  induction records generalizing store with
  | nil => exact ⟨store, .nil store, h⟩
  | cons record records ih =>
    cases h with
    | skip rest =>
      obtain ⟨store', hfirst, hrest⟩ := ih rest
      exact ⟨store', .skip hfirst, hrest⟩
    | save hrefers hindex rest =>
      obtain ⟨store', hfirst, hrest⟩ := ih rest
      exact ⟨store', .save hrefers hindex hfirst, hrest⟩

theorem Saves.sublist (h : Saves refers records store store') (hsub : records.Sublist records') :
    Saves refers records' store store' := by
  induction hsub generalizing store with
  | slnil => exact h
  | cons record _ ih => exact .skip (ih h)
  | cons_cons record _ ih =>
    cases h with
    | skip rest => exact .skip (ih rest)
    | save hrefers hindex rest => exact .save hrefers hindex (ih rest)

theorem Saves.mono (h : Saves refers records store store')
    (hrefers : ∀ record, refers record → refers' record) :
    Saves refers' records store store' := by
  induction h with
  | nil store => exact .nil store
  | skip _ ih => exact .skip ih
  | save hrecord hindex _ ih => exact .save (hrefers _ hrecord) hindex ih

/-- The rows of a kind that is not saved only become fewer. -/
theorem Saves.filter_sublist (h : Saves refers records store store') {p : Stored entity → Bool}
    (hp : ∀ record ∈ records, p record = false) :
    (store'.rows.filter p).Sublist (store.rows.filter p) := by
  induction h with
  | nil => exact List.Sublist.refl _
  | skip _ ih => exact ih fun record hrecord => hp record (List.mem_cons_of_mem _ hrecord)
  | @save record _ store _ _ hindex _ ih =>
    refine (ih fun record hrecord => hp record (List.mem_cons_of_mem _ hrecord)).trans ?_
    have hrecord : p record = false := hp record List.mem_cons_self
    change ((upsert Stored.key record store.rows).filter p).Sublist _
    generalize store.rows = rows
    induction rows with
    | nil => simp [upsert, hrecord]
    | cons row rows ih =>
      rw [upsert]
      split
      · rw [List.filter_cons_of_neg (by simp [hrecord])]
        exact (List.sublist_cons_self _ _).filter p
      · rw [List.filter_cons, List.filter_cons]
        split
        · exact ih.cons_cons row
        · exact ih

/-- The record refers to an asset of the shard, if foreign keys are enforced. -/
def Refers (foreignKeys : Bool) (d : String → DataSource) (shardId : String)
    (record : Stored entity) : Prop :=
  foreignKeys → (d shardId).References record.row

/-- The records of a list that are assigned to a shard. -/
def assignedTo (env : Environment) (map : ShardMap) (now : ℤ) (shardId : String)
    (records : List (Stored entity)) :
    List (Stored entity) :=
  records.filter fun record => targetShard env map now record.row = some shardId

/-- A pass over some records of a shard: on each other shard, some of those are saved that are
assigned to it. -/
structure Passed (env : Environment) (map : ShardMap) (foreignKeys : Bool) (now : ℤ)
    (fromShardId : String)
    (records : List (Stored entity)) (d d' : String → DataSource) : Prop where
  others : ∀ shardId other, other ≠ entity → d' shardId other = d shardId other
  saves : ∀ shardId, shardId ≠ fromShardId → Saves (Refers foreignKeys d shardId)
    (assignedTo env map now shardId records) (d shardId entity) (d' shardId entity)

variable {d d' d'' : String → DataSource} {fromShardId toShardId : String} {record : Stored entity}

theorem assignedTo_append (shardId : String) (records records' : List (Stored entity)) :
    assignedTo env map now shardId (records ++ records') =
      assignedTo env map now shardId records ++ assignedTo env map now shardId records' :=
  List.filter_append ..

theorem assignedTo_of_forall {targetShardId : Option String}
    (h : ∀ record ∈ records, targetShard env map now record.row = targetShardId)
    (shardId : String) :
    assignedTo env map now shardId records = if targetShardId = some shardId
      then records else [] := by
  unfold assignedTo
  split
  next heq => exact List.filter_eq_self.mpr fun record hrecord =>
    decide_eq_true ((h record hrecord).trans heq)
  next hne =>
    refine List.filter_eq_nil_iff.mpr fun record hrecord => ?_
    rw [h record hrecord]
    simpa using hne

theorem refers_congr (hentity : entity ≠ .virtualAsset) (h : ∀ shardId other, other ≠ entity →
    d' shardId other = d shardId other) (shardId : String) (record : Stored entity) :
    Refers foreignKeys d' shardId record ↔ Refers foreignKeys d shardId record :=
  imp_congr_right fun _ => references_congr hentity h shardId record.row

theorem Passed.none (records : List (Stored entity)) :
    Passed env map foreignKeys now fromShardId records d d :=
  ⟨fun _ _ _ => rfl, fun _ _ => .none _ _⟩

theorem Passed.append (hentity : entity ≠ .virtualAsset)
    (h : Passed env map foreignKeys now fromShardId records d d')
    (h' : Passed env map foreignKeys now fromShardId records' d' d'') :
    Passed env map foreignKeys now fromShardId (records ++ records') d d'' := by
  refine ⟨fun shardId other hother => (h'.others shardId other hother).trans
    (h.others shardId other hother), ?_⟩
  intro shardId hne
  rw [assignedTo_append]
  exact (h.saves shardId hne).append ((h'.saves shardId hne).mono fun record =>
    (refers_congr hentity h.others shardId record).mp)

theorem passed_save (foreignKeys : Bool) (fromShardId : String)
    (htarget : targetShard env map now record.row = some toShardId)
    (course : Course String (String → DataSource)) :
    Passed env map foreignKeys now fromShardId [record] course.state
      ((shardService foreignKeys entity).serve (.save toShardId record) course).2.state := by
  rcases Service.state_serve (shardService foreignKeys entity) (.save toShardId record) course with
    hsame | heffect
  · rw [hsame]
    exact .none _
  obtain ⟨hindex, hrefers, hstate⟩ := effect_save_eq_ok heffect
  rw [hstate]
  refine ⟨fun shardId other hother => update_other hother shardId, fun shardId _ => ?_⟩
  rw [update_same, assignedTo_of_forall (by simpa using htarget)]
  by_cases heq : toShardId = shardId
  · subst heq
    rw [if_pos rfl, if_pos rfl]
    exact .save hrefers hindex (.nil _)
  · rw [if_neg fun h => heq (Option.some.inj h), if_neg (Ne.symm heq)]
    exact .nil _

theorem passed_remove (env : Environment) (map : ShardMap) (foreignKeys : Bool) (now : ℤ)
    (fromShardId : String) (record : Stored entity) (course : Course String (String → DataSource)) :
    Passed env map foreignKeys now fromShardId ([] : List (Stored entity)) course.state
      ((shardService foreignKeys entity).serve (.remove fromShardId record) course).2.state := by
  rcases Service.state_serve (shardService foreignKeys entity)
    (.remove fromShardId record) course with
    hsame | heffect
  · rw [hsame]
    exact .none _
  rw [effect_remove_eq_ok heffect]
  refine ⟨fun shardId other hother => update_other hother shardId, fun shardId hne => ?_⟩
  rw [update_same, if_neg hne]
  exact .nil _

/-- The move of a record, whatever fails. -/
theorem passed_moveRecord (hentity : entity ≠ .virtualAsset)
    (htarget : targetShard env map now record.row = some toShardId)
    (course : Course String (String → DataSource)) :
    (moveRecord fromShardId toShardId record).Yields
    (shardService foreignKeys entity).serve course fun _ course' =>
      Passed env map foreignKeys now fromShardId [record] course.state course'.state := by
  have hsaved := passed_save foreignKeys fromShardId htarget course
  have hremoved := passed_remove env map foreignKeys now fromShardId record
  refine yields_tryCatch (P := fun _ course' =>
    Passed env map foreignKeys now fromShardId [record] course.state course'.state) ?_
      (fun _ _ h => h) ?_
  · exact yields_issue_bind (fun _ _ => yields_issue (hsaved.append hentity (hremoved _)))
      fun _ _ => hsaved
  · intro message course' h
    split
    · exact yields_issue (h.append hentity (hremoved _))
    · exact yields_ret h

/-- The moves of records that are assigned to one shard. -/
theorem passed_moveRecords (hentity : entity ≠ .virtualAsset)
    (htarget : ∀ record ∈ records, targetShard env map now record.row = some toShardId)
    (course : Course String (String → DataSource)) :
    (moveRecords fromShardId toShardId records).Yields
    (shardService foreignKeys entity).serve course fun _ course' =>
      Passed env map foreignKeys now fromShardId records course.state course'.state := by
  induction records generalizing course with
  | nil => exact yields_ret (.none _)
  | cons record records ih =>
    obtain ⟨hrecord, hrest⟩ := List.forall_mem_cons.mp htarget
    refine yields_bind (passed_moveRecord hentity hrecord course)
      (fun _ course' h => ?_) fun _ _ h => ?_
    · exact (ih hrest course').mono fun _ _ h' => h.append hentity h'
    · exact h.append hentity (.none records)

/-- Groups of records, by the shards that they are assigned to. -/
def Assigned (env : Environment) (map : ShardMap) (now : ℤ)
    (groups : List (Option String × List (Stored entity))) : Prop :=
  ∀ group ∈ groups, ∀ record ∈ group.2, targetShard env map now record.row = group.1

/-- The moves of a batch, whatever fails. -/
theorem passed_moveBatch (foreignKeys : Bool) (fromShardId : String)
    (hentity : entity ≠ .virtualAsset) {groups : List (Option String × List (Stored entity))}
    (hgroups : Assigned env map now groups) (course : Course String (String → DataSource)) :
    (moveBatch map fromShardId groups).Yields
    (shardService foreignKeys entity).serve course fun _ course' =>
      Passed env map foreignKeys now fromShardId
        (groups.flatMap Prod.snd) course.state course'.state := by
  induction groups generalizing course with
  | nil => exact yields_ret (.none _)
  | cons group groups ih =>
    obtain ⟨targetShardId, records⟩ := group
    obtain ⟨htarget, hrest⟩ := List.forall_mem_cons.mp hgroups
    rw [List.flatMap_cons]
    refine yields_bind
      (P := fun _ course' => Passed env map foreignKeys now fromShardId records course.state
      course'.state) ?_ (fun _ course' h => ?_) fun _ _ h => ?_
    · unfold moveGroup
      split
      · exact yields_ret (.none _)
      next toShardId hshard =>
        obtain ⟨rfl, -⟩ := Option.filter_eq_some_iff.mp hshard
        exact passed_moveRecords hentity htarget course
    · exact (ih hrest course').mono fun _ _ h' => h.append hentity h'
    · exact h.append hentity (.none _)

/-- The groups of a batch are assigned to their shards. -/
theorem assigned_recordsToMove (env : Environment) (map : ShardMap) (now : ℤ) (fromShardId : String)
    (records : List (Stored entity)) :
    Assigned env map now (recordsToMove env map now fromShardId records) := by
  rintro ⟨targetShardId, group⟩ hgroup record hrecord
  rw [mem_grouped hgroup] at hrecord
  simpa using (List.mem_filter.mp hrecord).2

/-- The groups of a batch have its records that are assigned to another shard, in their order. -/
theorem assignedTo_recordsToMove (hne : toShardId ≠ fromShardId) (records : List (Stored entity)) :
    assignedTo env map now toShardId
    ((recordsToMove env map now fromShardId records).flatMap Prod.snd) =
      assignedTo env map now toShardId records := by
  unfold recordsToMove assignedTo
  rw [filter_flatMap_grouped, List.filter_filter]
  refine List.filter_congr fun record _ => ?_
  rw [← Bool.decide_and, decide_eq_decide]
  refine and_iff_left_of_imp fun htarget => ?_
  rw [htarget]
  exact fun h => hne (Option.some.inj h)

/-- The records that shards hold for another one. -/
def heldFor (env : Environment) (map : ShardMap) (now : ℤ) (d : String → DataSource)
    (shardId : String) (fromShardIds : List String) : List (Stored entity) :=
  fromShardIds.flatMap fun fromShardId => assignedTo env map now shardId
    (recordsOn entity d fromShardId)

/-- No shard can be full at its turn: whichever records are saved on it that the shards before
it hold for it, it has fewer records than a batch. -/
def NeverFull (env : Environment) (map : ShardMap) (foreignKeys : Bool) (now : ℤ) (entity : Entity)
    (d : String → DataSource) : Prop :=
  ∀ pre shardId post, map.shards = pre ++ shardId :: post → ∀ store : Store entity,
    Saves (Refers foreignKeys d shardId) (heldFor env map now d shardId pre)
      (d shardId entity) store →
      store.rows.length < batchSize

/-- The shards after the turns of some of them: what has arrived on each of the others. -/
structure Reached (env : Environment) (map : ShardMap) (foreignKeys : Bool) (now : ℤ)
    (entity : Entity)
    (d : String → DataSource) (pre : List String) (d' : String → DataSource) : Prop where
  others : ∀ shardId other, other ≠ entity → d' shardId other = d shardId other
  saves : ∀ shardId, shardId ∉ pre → Saves (Refers foreignKeys d shardId)
    (heldFor env map now d shardId pre) (d shardId entity) (d' shardId entity)

theorem Reached.start : Reached env map foreignKeys now entity d [] d :=
  ⟨fun _ _ _ => rfl, fun _ _ => .nil _⟩

/-- What a shard holds for another one has been there from the start. -/
theorem Reached.assignedTo_sublist {pre : List String}
    (h : Reached env map foreignKeys now entity d pre d') (hfrom : fromShardId ∉ pre)
    (hne : toShardId ≠ fromShardId) :
    (assignedTo env map now toShardId (recordsOn entity d' fromShardId)).Sublist
      (assignedTo env map now toShardId (recordsOn entity d fromShardId)) := by
  refine (h.saves fromShardId hfrom).filter_sublist fun record hrecord => ?_
  obtain ⟨shardId, -, hmem⟩ := List.mem_flatMap.mp hrecord
  have htarget : targetShard env map now record.row = some fromShardId := by
    simpa using (List.mem_filter.mp hmem).2
  rw [htarget]
  exact decide_eq_false fun heq => hne (Option.some.inj heq).symm

/-- One more turn. -/
theorem Reached.passed (hentity : entity ≠ .virtualAsset) {pre : List String}
    (h : Reached env map foreignKeys now entity d pre d') (hfrom : fromShardId ∉ pre)
    (hpassed : Passed env map foreignKeys now fromShardId
      (recordsOn entity d' fromShardId) d' d'') :
    Reached env map foreignKeys now entity d (pre ++ [fromShardId]) d'' := by
  refine ⟨fun shardId other hother => (hpassed.others shardId other hother).trans
    (h.others shardId other hother), ?_⟩
  intro shardId hshard
  rw [List.mem_append, List.mem_singleton, not_or] at hshard
  have harrived := ((hpassed.saves shardId hshard.2).mono fun record =>
    (refers_congr hentity h.others shardId record).mp).sublist (h.assignedTo_sublist hfrom hshard.2)
  rw [heldFor, List.flatMap_append, List.flatMap_singleton]
  exact (h.saves shardId hshard.1).append harrived

/-- The turn of a shard with few records: one pass, whatever fails. -/
theorem passed_rebalanceShard (env : Environment) (map : ShardMap) (foreignKeys : Bool) (now : ℤ)
    (hentity : entity ≠ .virtualAsset) (fuel : ℕ)
    {course : Course String (String → DataSource)}
    (hfew : (recordsOn entity course.state fromShardId).length < batchSize) :
    (rebalanceShard env map now fromShardId (fuel + 1) : RowTask entity Bool).Yields
      (shardService foreignKeys entity).serve course fun o course' => (∀ ended, o = .ok ended →
        ended = true) ∧
        Passed env map foreignKeys now fromShardId
        (recordsOn entity course.state fromShardId) course.state
          course'.state := by
  have hread : ((shardService foreignKeys entity).serve
    (.find fromShardId batchSize 0) course).2.state =
      course.state := by
    rcases Service.state_serve (shardService foreignKeys entity)
      (.find fromShardId batchSize 0) course with
      hsame | heffect
    · exact hsame
    · exact (Except.ok.inj heffect).symm
  refine yields_issue_bind (fun records hreply => ?_) fun _ _ =>
    ⟨fun _ h => (nomatch h), hread ▸ .none _⟩
  -- the whole shard is read
  obtain rfl : recordsOn entity course.state fromShardId = records :=
    (List.take_of_length_le hfew.le).symm.trans (Service.serve_eq_ok hreply)
  split
  · exact yields_ret ⟨fun _ h => (Except.ok.inj h).symm, hread ▸ .none _⟩
  have hbatch := passed_moveBatch foreignKeys fromShardId hentity
    (assigned_recordsToMove env map now fromShardId (recordsOn entity course.state fromShardId))
    ((shardService foreignKeys entity).serve (.find fromShardId batchSize 0) course).2
  have hpassed : ∀ d', Passed env map foreignKeys now fromShardId _ _ d' →
      Passed env map foreignKeys now fromShardId
        (recordsOn entity course.state fromShardId) course.state d' :=
    fun d' h =>
      ⟨fun shardId other hother => hread ▸ h.others shardId other hother, fun shardId hne => by
      have hsaves := h.saves shardId hne
      rwa [assignedTo_recordsToMove hne, hread] at hsaves⟩
  refine yields_bind hbatch (fun _ _ h => ?_) fun _ _ h => ⟨fun _ h => (nomatch h), hpassed _ h⟩
  exact yields_ret ⟨fun _ h => (Except.ok.inj h).symm, hpassed _ h⟩

/-- The turns of the shards, when none can be full: all of them end, whatever fails. -/
theorem reached_rebalanceEntity (hentity : entity ≠ .virtualAsset) (fuel : ℕ)
    (hnever : NeverFull env map foreignKeys now entity d) {pre shardIds : List String}
    (hshards : map.shards = pre ++ shardIds) (course : Course String (String → DataSource))
    (h : Reached env map foreignKeys now entity d pre course.state) :
    (rebalanceEntity env map now (fuel + 1) shardIds : RowTask entity Bool).Yields
      (shardService foreignKeys entity).serve course fun o course' => o = .ok true ∧
        Reached env map foreignKeys now entity d map.shards course'.state := by
  induction shardIds generalizing pre course with
  | nil => exact yields_ret ⟨rfl, by rwa [hshards, List.append_nil]⟩
  | cons fromShardId shardIds ih =>
    have hfrom : fromShardId ∉ pre := by
      have hnodup := map.nodup
      rw [hshards] at hnodup
      exact fun hmem => (List.nodup_append.mp hnodup).2.2 _ hmem _ List.mem_cons_self rfl
    have hfew : (recordsOn entity course.state fromShardId).length < batchSize :=
      hnever pre fromShardId shardIds hshards _ (h.saves fromShardId hfrom)
    have hturn := passed_rebalanceShard env map foreignKeys now hentity fuel hfew
    refine yields_bind (P := fun o course' => o = .ok true ∧
      Reached env map foreignKeys now entity d (pre ++ [fromShardId]) course'.state)
      (yields_tryCatch hturn (fun ended _ h' => ?_) fun _ _ h' => yields_ret ⟨rfl, ?_⟩) ?_ ?_
    · exact ⟨congrArg _ (h'.1 ended rfl), h.passed hentity hfrom h'.2⟩
    · exact h.passed hentity hfrom h'.2
    · rintro ended course' ⟨hok, hreached⟩
      obtain rfl := Except.ok.inj hok
      rw [if_pos rfl]
      exact ih (by rw [hshards, List.append_assoc, List.singleton_append]) course' hreached
    · rintro _ _ ⟨h', -⟩
      cases h'

end Sharding
