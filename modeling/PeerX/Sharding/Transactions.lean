import PeerX.Sharding.Service
import PeerX.Foundations.Fallible
import PeerX.Foundations.Grouping

/-!
# Sharding: cross-shard transactions

A cross-shard transaction starts a transaction on each shard that takes part, runs the operations,
and commits the shards one after the other. A commit that throws rolls back the shards that have not
been committed; those that have been stay so. Each shard has one connection, on which a transaction
works on a copy of the tables.

## Main results

* `yields_prepare`, `yields_commitAll`: what the phases do
* `all_or_nothing_iff`: exactly when a transaction is all or nothing
* `half_committed`: a transaction that is committed on one of two shards
-/

namespace Sharding

open Concurrency Relational Grouping

/-! ## Operations -/

/-- The `type` of an operation. -/
inductive OperationType : Type
  | insert
  | update
  | delete
deriving DecidableEq

/-- An operation, with the key that its insert generates, and how its save or its removal goes. -/
structure Operation where
  entity : Entity
  data : entity.Draft
  strategy : Option String := none
  type : OperationType
  generated : entity.Key
  fate : Fate String := .succeeds

variable (env : Environment) (map : ShardMap) (foreignKeys : Bool) (now : ℤ)

namespace Operation

/-- `op.strategy || 'user'`. -/
def strategyName (op : Operation) : String := (op.strategy.filter (· ≠ "")).getD "user"

/-- The shard of an operation, or the exception of the first phase. -/
def shard (op : Operation) : Except String String :=
  match strategies env map now op.strategyName with
  | none => .error s!"Strategy {op.strategyName} not found"
  | some shardingStrategy => do
    let shardId ← shardingStrategy.getShard (shardingStrategy.getShardKey
      (op.entity.data env op.data))
    match shardId.filter (· ∈ map.shards) with
    | none => throw s!"Shard {shardText shardId} not found"
    | some shardId => return shardId

/-- The effect of an operation on the tables of a shard. -/
def apply (op : Operation) (source : DataSource) : Except String DataSource :=
  match op.type with
  | .insert => source.save foreignKeys op.data op.generated now op.strategyName
  | .update => source.save foreignKeys op.data op.generated now op.strategyName
  | .delete => source.remove foreignKeys op.data

end Operation

/-- The effect of several operations, each once and in their order. -/
def applyAll : List Operation → DataSource → Except String DataSource
  | [], source => .ok source
  | op :: ops, source =>
    match op.apply foreignKeys now source with
    | .ok source => applyAll ops source
    | .error message => .error message

/-- The operations on a shard. -/
abbrev Participant := String × List Operation

/-- The first phase: the operations of each shard. -/
def participants (ops : List Operation) : Except String (List Participant) :=
  ops.foldlM (fun groups op => do return addTo (← op.shard env map now) op groups) []

/-! ## Steps -/

/-- How the connection of a shard goes. -/
structure ConnectionFates where
  connect : Fate String := .succeeds
  startTransaction : Fate String := .succeeds
  commitTransaction : Fate String := .succeeds
  rollbackTransaction : Fate String := .succeeds

/-- The shards, with the copies that their open transactions work on. -/
structure TransactionDb where
  sources : String → DataSource
  working : String → Option DataSource := fun _ => none

/-- The steps of a transaction. -/
inductive TransactionCommand : Type
  | connect (shardId : String)
  | startTransaction (shardId : String)
  /-- The `save` or the `remove` of an operation. -/
  | perform (shardId : String) (op : Operation)
  | commitTransaction (shardId : String)
  | rollbackTransaction (shardId : String)

/-- The exception of a commit or a rollback without a transaction. -/
def transactionNotStarted : String :=
  "Transaction is not started yet, start transaction before committing or rolling it back."

namespace TransactionCommand

/-- How a step goes. -/
def fate (fates : String → ConnectionFates) : TransactionCommand → Fate String
  | connect shardId => (fates shardId).connect
  | startTransaction shardId => (fates shardId).startTransaction
  | perform _ op => op.fate
  | commitTransaction shardId => (fates shardId).commitTransaction
  | rollbackTransaction shardId => (fates shardId).rollbackTransaction

/-- The effect of a step, or its exception. -/
def effect : TransactionCommand → TransactionDb → Except String TransactionDb
  | connect _, db => .ok db
  | startTransaction shardId, db =>
    .ok { db with working := Function.update db.working shardId (some (db.sources shardId)) }
  | perform shardId op, db =>
    match db.working shardId with
    | some source =>
      match op.apply foreignKeys now source with
      | .ok source => .ok { db with working := Function.update db.working shardId (some source) }
      | .error message => .error message
    | none =>
      match op.apply foreignKeys now (db.sources shardId) with
      | .ok source => .ok { db with sources := Function.update db.sources shardId source }
      | .error message => .error message
  | commitTransaction shardId, db =>
    match db.working shardId with
    | some source =>
      .ok
        { sources := Function.update db.sources shardId source
          working := Function.update db.working shardId none }
    | none => .error transactionNotStarted
  | rollbackTransaction shardId, db =>
    match db.working shardId with
    | some _ => .ok { db with working := Function.update db.working shardId none }
    | none => .error transactionNotStarted

end TransactionCommand

variable (fates : String → ConnectionFates)

/-- The reply to a step, and the shards after it. A step that throws early has no effect. -/
def transact (c : TransactionCommand) (db : TransactionDb) : Except String Unit × TransactionDb :=
  match c.effect foreignKeys now db with
  | .error message => (.error message, db)
  | .ok db' => ((c.fate fates).reply (), if (c.fate fates).carriedOut then db' else db)

/-- The programs of a transaction. -/
abbrev TransactionTask (α : Type) := Prog TransactionCommand (fun _ => Except String Unit) String α

abbrev step (c : TransactionCommand) : TransactionTask Unit := issue (V := fun _ => Unit) c

/-! ## The transaction -/

/-- The operations of a shard. -/
def performAll (shardId : String) : List Operation → TransactionTask Unit
  | [] => return ()
  | op :: ops => do
    step (.perform shardId op)
    performAll shardId ops

/-- The transaction of a shard is opened. -/
def openTransaction (shardId : String) : TransactionTask Unit := do
  step (.connect shardId)
  step (.startTransaction shardId)

/-- The second phase: the transactions are started and the operations run. The started
transactions are returned, with the exception of the step that has thrown. -/
def prepare : List Participant → List String → TransactionTask (List String × Option String)
  | [], queryRunners => return (queryRunners, none)
  | (shardId, ops) :: rest, queryRunners => do
    match ← (openTransaction shardId).attempt with
    | .error error => return (queryRunners, some error)
    | .ok _ =>
      match ← (performAll shardId ops).attempt with
      | .error error => return (queryRunners ++ [shardId], some error)
      | .ok _ => prepare rest (queryRunners ++ [shardId])

/-- The third phase: the commits. -/
def commitAll : List String → TransactionTask Unit
  | [] => return ()
  | shardId :: queryRunners => do
    step (.commitTransaction shardId)
    commitAll queryRunners

/-- The fourth phase: the rollbacks. One that throws is logged. -/
def rollbackAll : List String → TransactionTask Unit
  | [] => return ()
  | shardId :: queryRunners => do
    tryCatch (step (.rollbackTransaction shardId)) fun _ => pure ()
    rollbackAll queryRunners

/-- `executeTransaction`. The release of a runner leaves its connection as it is. -/
def executeTransaction (ops : List Operation) : TransactionTask Unit := do
  match participants env map now ops with
  | .error error => throw error
  | .ok parts =>
    let (queryRunners, failure) ← prepare parts []
    let outcome ← match failure with
      | some error => pure (.error error)
      | none => (commitAll queryRunners).attempt
    match outcome with
    | .ok _ => return ()
    | .error error =>
      rollbackAll queryRunners
      throw error

/-! ## The property -/

/-- The operations on a shard. -/
def opsOn (ops : List Operation) (shardId : String) : List Operation :=
  ops.filter fun op => op.shard env map now = .ok shardId

/-- All or nothing: a transaction that rejects has changed no shard, and one that resolves has
run every operation once, on its shard. -/
def AllOrNothing (ops : List Operation) (sources : String → DataSource)
    (run : Except String Unit × TransactionDb) :
    Prop :=
  match run.1 with
  | .ok _ => ∀ shardId, applyAll foreignKeys now (opsOn env map now ops shardId) (sources shardId) =
      .ok (run.2.sources shardId)
  | .error _ => ∀ shardId, run.2.sources shardId = sources shardId

/-- The operations run on the tables of a shard. -/
def Performs (ops : List Operation) (source source' : DataSource) : Prop :=
  (∀ op ∈ ops, op.fate = .succeeds) ∧ applyAll foreignKeys now ops source = .ok source'

/-- The transaction of a shard is started, and its operations run. -/
def Ready (sources : String → DataSource) (p : Participant) (source : DataSource) : Prop :=
  ((fates p.1).connect = .succeeds ∧ (fates p.1).startTransaction = .succeeds) ∧
    Performs foreignKeys now p.2 (sources p.1) source

/-- The first two phases go through. -/
def Prepared (sources : String → DataSource) (parts : List Participant) : Prop :=
  ∀ p ∈ parts, ∃ source, Ready foreignKeys now fates sources p source

/-- The shards whose commits are carried out, until one throws. -/
def committed : List String → List String
  | [] => []
  | shardId :: queryRunners =>
    match (fates shardId).commitTransaction with
    | .succeeds => shardId :: committed queryRunners
    | .throwsLate _ => [shardId]
    | .throws _ => []

/-- The commits belong together: none of them throws, or the operations of the shards that are
committed until then leave these as they are. -/
def CommitsTogether (sources : String → DataSource) (parts : List Participant) : Prop :=
  (∀ p ∈ parts, (fates p.1).commitTransaction = .succeeds) ∨
    ∀ p ∈ parts, p.1 ∈ committed fates (parts.map Prod.fst) →
      applyAll foreignKeys now p.2 (sources p.1) = .ok (sources p.1)

/-! ## The phases -/

variable {env map foreignKeys now fates} {db : TransactionDb} {ops : List Operation}
    {shardId : String}

/-- The groups that are made when every operation has a shard. -/
theorem foldlM_addTo_eq_ok {ops : List Operation} {groups parts : List Participant}
    (h : ops.foldlM (fun groups op => do return addTo (← op.shard env map now) op groups)
      groups = .ok parts) :
    (∀ op ∈ ops, ∃ shardId, op.shard env map now = .ok shardId) ∧
      parts = ops.foldl
      (fun groups op => addTo ((op.shard env map now).toOption.getD "") op groups) groups := by
  induction ops generalizing groups with
  | nil => exact ⟨fun _ hop => (by cases hop), (Except.ok.inj h).symm⟩
  | cons op ops ih =>
    rw [List.foldlM_cons] at h
    cases hshard : op.shard env map now with
    | error message =>
      rw [hshard] at h
      cases h
    | ok shardId =>
      rw [hshard] at h
      obtain ⟨hall, hparts⟩ := ih h
      refine ⟨List.forall_mem_cons.mpr ⟨⟨shardId, hshard⟩, hall⟩, ?_⟩
      rw [hparts, List.foldl_cons, hshard]
      rfl

/-- The participants: each shard with its operations. -/
theorem participants_eq_ok {parts : List Participant}
    (h : participants env map now ops = .ok parts) :
    (parts.map Prod.fst).Nodup ∧ (∀ p ∈ parts, p.2 = opsOn env map now ops p.1) ∧
      ∀ shardId ∉ parts.map Prod.fst, opsOn env map now ops shardId = [] := by
  obtain ⟨hall, hparts⟩ := foldlM_addTo_eq_ok h
  have hof : ∀ shardId, ops.filter (fun op => (op.shard env map now).toOption.getD "" = shardId) =
      opsOn env map now ops shardId := by
    refine fun shardId => List.filter_congr fun op hop => ?_
    obtain ⟨shardId', hshard⟩ := hall op hop
    simp [hshard, Except.toOption]
  rw [hparts]
  refine ⟨nodup_grouped _ ops, fun p hp => ?_, fun shardId hnot => ?_⟩
  · exact (mem_grouped hp).trans (hof p.1)
  · rw [← hof, List.filter_eq_nil_iff]
    intro op hop
    simp only [decide_eq_true_eq]
    rintro rfl
    exact hnot (mem_keys_grouped.mpr (List.mem_map_of_mem hop))

theorem transact_eq_ok {c : TransactionCommand} {db' : TransactionDb}
    (heffect : c.effect foreignKeys now db = .ok db') :
    transact foreignKeys now fates c db =
      ((c.fate fates).reply (), if (c.fate fates).carriedOut then db' else db) := by
  rw [transact, heffect]

/-- A step alone. -/
theorem yields_step {c : TransactionCommand} {db' : TransactionDb}
    (heffect : c.effect foreignKeys now db = .ok db')
    {Q : Except String Unit → TransactionDb → Prop}
    (hok : c.fate fates = .succeeds → Q (.ok ()) db')
    (herror : ∀ error, c.fate fates ≠ .succeeds →
      Q (.error error) (if (c.fate fates).carriedOut then db' else db)) :
    (step c).Yields (transact foreignKeys now fates) db Q := by
  refine yields_issue ?_
  rw [transact_eq_ok heffect]
  cases hfate : c.fate fates with
  | succeeds => exact hok hfate
  | throws error =>
    have hQ := herror error fun h => by cases hfate.symm.trans h
    rwa [hfate] at hQ
  | throwsLate error =>
    have hQ := herror error fun h => by cases hfate.symm.trans h
    rwa [hfate] at hQ

/-- The transaction of a shard is opened. -/
theorem yields_openTransaction : (openTransaction shardId).Yields
    (transact foreignKeys now fates) db fun o db' =>
    (db' = db ∨
      db' = { db with working := Function.update db.working shardId (some (db.sources shardId)) }) ∧
      match o with
      | .ok _ =>
        ((fates shardId).connect = .succeeds ∧ (fates shardId).startTransaction = .succeeds) ∧
          db' = { db with
            working := Function.update db.working shardId (some (db.sources shardId)) }
      | .error _ =>
        ¬ ((fates shardId).connect = .succeeds ∧ (fates shardId).startTransaction = .succeeds) := by
  refine yields_bind (P := fun o db' => db' = db ∧
    (o = .ok () ↔ (fates shardId).connect = .succeeds)) ?_ ?_ ?_
  · refine yields_step rfl (fun hfate => ⟨rfl, iff_of_true rfl hfate⟩) fun error hfate =>
      ⟨ite_self _, ?_⟩
    exact iff_of_false (fun h => by cases h) hfate
  · rintro _ _ ⟨rfl, hconnect⟩
    have hconnect := hconnect.mp rfl
    refine yields_step rfl (fun hfate => ⟨.inr rfl, ⟨hconnect, hfate⟩, rfl⟩) fun error hfate =>
      ⟨?_, fun h => hfate h.2⟩
    split
    · exact .inr rfl
    · exact .inl rfl
  · rintro error _ ⟨rfl, hconnect⟩
    exact ⟨.inl rfl, fun h => by cases hconnect.mpr h.1⟩

/-- An operation of a shard, on the copy of its transaction. -/
theorem yields_perform {source : DataSource} (hopen : db.working shardId = some source)
    (op : Operation) :
    (step (.perform shardId op)).Yields (transact foreignKeys now fates) db fun o db' =>
      (∃ source', db' = { db with working := Function.update db.working shardId (some source') }) ∧
        match o with
        | .ok _ => op.fate = .succeeds ∧ ∃ source', op.apply foreignKeys now source = .ok source' ∧
            db' = { db with working := Function.update db.working shardId (some source') }
        | .error _ =>
          ¬ (op.fate = .succeeds ∧ ∃ source', op.apply foreignKeys now source = .ok source') := by
  have hsame : db = { db with working := Function.update db.working shardId (some source) } := by
    rw [← hopen, Function.update_eq_self]
  have heffect : (TransactionCommand.perform shardId op).effect foreignKeys now db =
      match op.apply foreignKeys now source with
      | .ok source => .ok { db with working := Function.update db.working shardId (some source) }
      | .error message => .error message := by
    simp only [TransactionCommand.effect, hopen]
  cases happly : op.apply foreignKeys now source with
  | error message =>
    -- the database refuses the operation, whatever its fate
    rw [happly] at heffect
    refine yields_issue ?_
    rw [transact, heffect]
    refine ⟨⟨source, hsame⟩, ?_⟩
    rintro ⟨-, source', h⟩
    cases h
  | ok source₁ =>
    rw [happly] at heffect
    refine yields_step heffect (fun hfate => ⟨⟨source₁, rfl⟩, hfate, source₁, rfl, rfl⟩)
      fun error hfate => ⟨?_, ?_⟩
    · split
      · exact ⟨source₁, rfl⟩
      · exact ⟨source, hsame⟩
    · exact fun h => hfate h.1

/-- The operations of a shard, on the copy of its transaction. -/
theorem yields_performAll {source : DataSource} (hopen : db.working shardId = some source) :
    (performAll shardId ops).Yields (transact foreignKeys now fates) db fun o db' =>
      ∃ source', db' = { db with working := Function.update db.working shardId (some source') } ∧
        match o with
        | .ok _ => Performs foreignKeys now ops source source'
        | .error _ => ∀ source', ¬ Performs foreignKeys now ops source source' := by
  induction ops generalizing db source with
  | nil =>
    refine yields_ret ⟨source, ?_, fun _ hop => (by cases hop), rfl⟩
    rw [← hopen, Function.update_eq_self]
  | cons op ops ih =>
    -- the other operations run on what the first one leaves
    have hcons : ∀ source', Performs foreignKeys now (op :: ops) source source' ↔
        op.fate = .succeeds ∧ ∃ source₁, op.apply foreignKeys now source = .ok source₁ ∧
          Performs foreignKeys now ops source₁ source' := by
      intro source'
      rw [Performs, List.forall_mem_cons, applyAll, and_assoc]
      cases op.apply foreignKeys now source with
      | error message => simp
      | ok source₁ => simp [Performs]
    refine yields_bind (yields_perform hopen op) ?_ ?_
    · rintro _ _ ⟨-, hfate, source₁, happly, rfl⟩
      refine (ih (Function.update_self shardId (some source₁) db.working)).mono ?_
      rintro o _ ⟨source', rfl, hperforms⟩
      refine ⟨source', by simp, ?_⟩
      cases o with
      | ok _ => exact (hcons _).mpr ⟨hfate, source₁, happly, hperforms⟩
      | error _ =>
        intro source'' h
        obtain ⟨-, source₂, happly', hrest⟩ := (hcons _).mp h
        obtain rfl : source₁ = source₂ := Except.ok.inj (happly.symm.trans happly')
        exact hperforms source'' hrest
    · rintro error _ ⟨⟨source', rfl⟩, hfails⟩
      refine ⟨source', rfl, fun source'' h => hfails ?_⟩
      obtain ⟨hfate, source₁, happly, -⟩ := (hcons _).mp h
      exact ⟨hfate, source₁, happly⟩

/-- **The first two phases change no shard.** -/
theorem yields_prepare {parts : List Participant} (hnodup : (parts.map Prod.fst).Nodup)
    (queryRunners : List String) :
    (prepare parts queryRunners).Yields (transact foreignKeys now fates) db fun o db' =>
      db'.sources = db.sources ∧
        (∀ shardId ∉ parts.map Prod.fst, db'.working shardId = db.working shardId) ∧
        ((∃ queryRunners' error, o = .ok (queryRunners', some error) ∧
            ¬ Prepared foreignKeys now fates db.sources parts) ∨
          o = .ok (queryRunners ++ parts.map Prod.fst, none) ∧
            ∀ p ∈ parts, ∃ source, Ready foreignKeys now fates db.sources p source ∧
              db'.working p.1 = some source) := by
  induction parts generalizing db queryRunners with
  | nil =>
    refine yields_ret ⟨rfl, fun _ _ => rfl, .inr ⟨?_, fun p hp => by cases hp⟩⟩
    rw [List.map_nil, List.append_nil]
  | cons p parts ih =>
    obtain ⟨shardId, ops⟩ := p
    obtain ⟨hfresh, hnodup⟩ := List.nodup_cons.mp hnodup
    have hworking : ∀ w, ∀ shardId' ∉ ((shardId, ops) :: parts).map Prod.fst,
        Function.update db.working shardId w shardId' = db.working shardId' := by
      refine fun w shardId' hnot => Function.update_of_ne ?_ _ _
      rintro rfl
      exact hnot List.mem_cons_self
    refine yields_attempt_bind yields_openTransaction ?_
    rintro (error | _) db₁ ⟨hdb₁, ho⟩
    · -- the transaction is not opened, or it is and has nothing in it
      refine yields_ret ⟨?_, fun shardId' hnot => ?_, .inl ⟨_, _, rfl, fun hprepared => ?_⟩⟩
      · rcases hdb₁ with rfl | rfl <;> rfl
      · rcases hdb₁ with rfl | rfl
        · rfl
        · exact hworking _ shardId' hnot
      · obtain ⟨w, hready, -⟩ := hprepared _ List.mem_cons_self
        exact ho hready
    obtain ⟨hconnected, rfl⟩ := ho
    refine yields_attempt_bind
      (yields_performAll (Function.update_self shardId (some (db.sources shardId)) db.working)) ?_
    rintro (error | _) _ ⟨source', rfl, hperforms⟩
    · -- an operation fails: the copy of the transaction is thrown away later
      refine yields_ret ⟨rfl, fun shardId' hnot => ?_, .inl ⟨_, _, rfl, fun hprepared => ?_⟩⟩
      · dsimp only
        rw [Function.update_idem]
        exact hworking _ shardId' hnot
      · obtain ⟨w, -, hready⟩ := hprepared _ List.mem_cons_self
        exact hperforms w hready
    dsimp only at hperforms ⊢
    rw [Function.update_idem]
    -- the shard is ready, and the others do not touch its copy, as they differ
    refine (ih hnodup (queryRunners ++ [shardId])).mono ?_
    rintro o db' ⟨hsources, hother, houtcome⟩
    refine ⟨hsources, fun shardId' hnot => ?_, ?_⟩
    · rw [hother shardId' fun hmem => hnot (List.mem_cons_of_mem _ hmem)]
      exact hworking _ shardId' hnot
    rcases houtcome with ⟨queryRunners', error, ho, hnot⟩ | ⟨ho, hready⟩
    · refine .inl ⟨queryRunners', error, ho, fun hprepared => hnot fun p hp => ?_⟩
      exact hprepared p (List.mem_cons_of_mem _ hp)
    · refine .inr ⟨?_, List.forall_mem_cons.mpr ⟨⟨source', ⟨hconnected, hperforms⟩, ?_⟩, hready⟩⟩
      · rw [ho, List.append_assoc]
        rfl
      · rw [hother shardId hfresh]
        exact Function.update_self shardId (some source') db.working

/-- The commit of a shard. One that throws late has been carried out. -/
theorem yields_commitTransaction {source : DataSource} (hopen : db.working shardId = some source) :
    (step (.commitTransaction shardId)).Yields (transact foreignKeys now fates) db fun o db' =>
      (o = .ok () ↔ (fates shardId).commitTransaction = .succeeds) ∧
        db' = if (fates shardId).commitTransaction.carriedOut then
          ⟨Function.update db.sources shardId source, Function.update db.working shardId none⟩
            else db := by
  have heffect : (TransactionCommand.commitTransaction shardId).effect foreignKeys now db =
      .ok ⟨Function.update db.sources shardId source, Function.update db.working shardId none⟩ := by
    simp only [TransactionCommand.effect, hopen]
  refine yields_step heffect (fun hfate => ⟨iff_of_true rfl hfate, ?_⟩) fun error hfate => ⟨?_, rfl⟩
  · have hfate : (fates shardId).commitTransaction = .succeeds := hfate
    rw [hfate]
    rfl
  · exact iff_of_false (fun h => by cases h) hfate

/-- **The commits**, until one throws. -/
theorem yields_commitAll {queryRunners : List String} (hnodup : queryRunners.Nodup)
    {source : String → DataSource}
    (hopen : ∀ shardId ∈ queryRunners, db.working shardId = some (source shardId)) :
    (commitAll queryRunners).Yields (transact foreignKeys now fates) db fun o db' =>
      (∀ shardId, db'.sources shardId =
        if shardId ∈ committed fates queryRunners then source shardId else db.sources shardId) ∧
      match o with
      | .ok _ => ∀ shardId ∈ queryRunners, (fates shardId).commitTransaction = .succeeds
      | .error _ => ∃ shardId ∈ queryRunners, (fates shardId).commitTransaction ≠ .succeeds := by
  induction queryRunners generalizing db with
  | nil => exact yields_ret ⟨fun _ => rfl, fun _ hmem => by cases hmem⟩
  | cons shardId queryRunners ih =>
    obtain ⟨hfresh, hnodup⟩ := List.nodup_cons.mp hnodup
    obtain ⟨hfirst, hrest⟩ := List.forall_mem_cons.mp hopen
    refine yields_bind (yields_commitTransaction hfirst) ?_ ?_
    · rintro _ _ ⟨hfate, rfl⟩
      have hfate := hfate.mp rfl
      rw [hfate]
      -- the other transactions are open still
      have hstays : ∀ shardId' ∈ queryRunners,
          Function.update db.working shardId none shardId' = some (source shardId') := by
        intro shardId' hmem
        rw [← hrest shardId' hmem]
        exact Function.update_of_ne (ne_of_mem_of_not_mem hmem hfresh) _ _
      refine (ih hnodup hstays).mono ?_
      rintro o db' ⟨hsources, ho⟩
      refine ⟨fun shardId' => ?_, ?_⟩
      · rw [hsources, committed, hfate]
        by_cases heq : shardId' = shardId
        · subst heq
          simp [Fate.carriedOut]
        · simp [Fate.carriedOut, heq]
      · cases o with
        | ok _ => exact List.forall_mem_cons.mpr ⟨hfate, ho⟩
        | error _ =>
          obtain ⟨shardId', hmem, hthrows⟩ := ho
          exact ⟨shardId', List.mem_cons_of_mem _ hmem, hthrows⟩
    · rintro error _ ⟨hfate, rfl⟩
      have hfate : (fates shardId).commitTransaction ≠ .succeeds := fun h => by cases hfate.mpr h
      refine ⟨fun shardId' => ?_, shardId, List.mem_cons_self, hfate⟩
      rw [committed]
      cases hthrows : (fates shardId).commitTransaction with
      | succeeds => exact absurd hthrows hfate
      | throws error => rfl
      | throwsLate error =>
        by_cases heq : shardId' = shardId
        · subst heq
          simp [Fate.carriedOut]
        · simp [Fate.carriedOut, heq]

/-- The rollbacks change no shard. -/
theorem yields_rollbackAll (queryRunners : List String) :
    (rollbackAll queryRunners).Yields (transact foreignKeys now fates) db fun o db' =>
      o = .ok () ∧ db'.sources = db.sources := by
  induction queryRunners generalizing db with
  | nil => exact yields_ret ⟨rfl, rfl⟩
  | cons shardId queryRunners ih =>
    have hrollback : (step (.rollbackTransaction shardId)).Yields
      (transact foreignKeys now fates) db
        fun _ db' => db'.sources = db.sources := by
      refine yields_issue ?_
      cases hopen : db.working shardId with
      | none => simp [transact, TransactionCommand.effect, hopen]
      | some source =>
        simp only [transact, TransactionCommand.effect, hopen]
        split <;> rfl
    refine yields_bind (P := fun o db' => o = .ok () ∧ db'.sources = db.sources)
      (yields_tryCatch hrollback (fun _ _ h => ⟨rfl, h⟩) fun _ _ h => yields_ret ⟨rfl, h⟩) ?_ ?_
    · rintro _ db₁ ⟨-, hsources⟩
      exact ih.mono fun o db' h => ⟨h.1, h.2.trans hsources⟩
    · rintro _ _ ⟨h, -⟩
      cases h

/-! ## The transaction -/

theorem committed_subset (queryRunners : List String) :
    committed fates queryRunners ⊆ queryRunners := by
  induction queryRunners with
  | nil => exact List.Subset.refl _
  | cons shardId queryRunners ih =>
    rw [committed]
    split
    · exact List.cons_subset_cons _ ih
    · exact List.cons_subset_cons _ (List.nil_subset _)
    · exact List.nil_subset _

theorem committed_of_succeeds {queryRunners : List String}
    (h : ∀ shardId ∈ queryRunners, (fates shardId).commitTransaction = .succeeds) :
    committed fates queryRunners = queryRunners := by
  induction queryRunners with
  | nil => rfl
  | cons shardId queryRunners ih =>
    obtain ⟨hfirst, hrest⟩ := List.forall_mem_cons.mp h
    rw [committed, hfirst]
    exact congrArg (shardId :: ·) (ih hrest)

/-- The rollbacks, and the exception: the shards are those before them. -/
theorem yields_rejected {queryRunners : List String} {error : String}
    {Q : Except String Unit → TransactionDb → Prop}
    (h : ∀ db', db'.sources = db.sources → Q (.error error) db') :
    (do rollbackAll queryRunners; throw error : TransactionTask Unit).Yields
    (transact foreignKeys now fates) db Q := by
  refine yields_bind (yields_rollbackAll queryRunners) ?_ ?_
  · rintro _ db' ⟨-, hrolled⟩
    exact yields_throw (h db' hrolled)
  · rintro error' db' ⟨h, -⟩
    cases h

section Commits

variable {parts : List Participant} {source sources sources' : String → DataSource}

/-- A commit has thrown: the shards are as before exactly when the committed ones were left as
they were. -/
theorem rejected_iff (hready : ∀ p ∈ parts, Ready foreignKeys now fates sources p (source p.1))
    (hthrows : ∃ shardId ∈ parts.map Prod.fst, (fates shardId).commitTransaction ≠ .succeeds)
    (hcommitted : ∀ shardId, sources' shardId =
      if shardId ∈ committed fates (parts.map Prod.fst) then source shardId else sources shardId) :
    (∀ shardId, sources' shardId = sources shardId) ↔
      CommitsTogether foreignKeys now fates sources parts := by
  constructor
  · intro hsame
    refine .inr fun p hp hmem => ?_
    have hunchanged : sources' p.1 = sources p.1 := hsame p.1
    rw [hcommitted, if_pos hmem] at hunchanged
    rw [(hready p hp).2.2, hunchanged]
  · intro htogether shardId
    rw [hcommitted]
    split
    next hmem =>
      obtain ⟨p, hp, rfl⟩ := List.mem_map.mp (committed_subset _ hmem)
      rcases htogether with hall | hleaves
      · obtain ⟨shardId', hmem', hthrows⟩ := hthrows
        obtain ⟨p', hp', rfl⟩ := List.mem_map.mp hmem'
        exact absurd (hall p' hp') hthrows
      · exact Except.ok.inj ((hready p hp).2.2.symm.trans (hleaves p hp hmem))
    · rfl

/-- Every shard has been committed: the operations have run on their shards. -/
theorem applied_of_committed (hparts : participants env map now ops = .ok parts)
    (hready : ∀ p ∈ parts, Ready foreignKeys now fates sources p (source p.1))
    (hall : ∀ shardId ∈ parts.map Prod.fst, (fates shardId).commitTransaction = .succeeds)
    (hcommitted : ∀ shardId, sources' shardId =
      if shardId ∈ committed fates (parts.map Prod.fst) then source shardId else sources shardId)
    (shardId : String) :
    applyAll foreignKeys now (opsOn env map now ops shardId) (sources shardId) =
      .ok (sources' shardId) := by
  obtain ⟨-, hops, hnone⟩ := participants_eq_ok hparts
  rw [hcommitted, committed_of_succeeds hall]
  split
  next hmem =>
    obtain ⟨p, hp, rfl⟩ := List.mem_map.mp hmem
    rw [← hops p hp]
    exact (hready p hp).2.2
  next hmem =>
    rw [hnone shardId hmem]
    rfl

end Commits

/-- **A transaction is all or nothing, exactly when its commits belong together, once its first
phases go through.** -/
theorem all_or_nothing_iff (env : Environment) (map : ShardMap) (foreignKeys : Bool) (now : ℤ)
    (fates : String → ConnectionFates) (ops : List Operation) (db : TransactionDb) :
    AllOrNothing env map foreignKeys now ops db.sources
        ((executeTransaction env map now ops).eval (transact foreignKeys now fates) db) ↔
      ∀ parts, participants env map now ops = .ok parts →
      Prepared foreignKeys now fates db.sources parts →
        CommitsTogether foreignKeys now fates db.sources parts := by
  suffices hyields : (executeTransaction env map now ops).Yields
    (transact foreignKeys now fates) db fun o db' =>
      (AllOrNothing env map foreignKeys now ops db.sources (o, db') ↔
        ∀ parts, participants env map now ops = .ok parts →
          Prepared foreignKeys now fates db.sources parts →
          CommitsTogether foreignKeys now fates db.sources parts) from hyields
  unfold executeTransaction
  cases hparts : participants env map now ops with
  | error message => exact yields_throw (iff_of_true (fun _ => rfl) fun parts h => by cases h)
  | ok parts =>
  have hnodup : (parts.map Prod.fst).Nodup := (participants_eq_ok hparts).1
  simp only [Except.ok.injEq, forall_eq']
  refine yields_bind (yields_prepare hnodup []) ?_ ?_
  · rintro ⟨queryRunners, failure⟩ db₁ ⟨hsources, -, houtcome⟩
    rcases houtcome with ⟨queryRunners', error, h, hunprepared⟩ | ⟨h, hready⟩
    · -- a step of the first phases has thrown
      obtain ⟨rfl, rfl⟩ := Prod.mk.inj (Except.ok.inj h)
      refine yields_bind (yields_ret (Q := fun o db' => o = .ok (.error error) ∧ db' = db₁)
        ⟨rfl, rfl⟩) ?_ ?_
      · rintro outcome _ ⟨ho, rfl⟩
        obtain rfl := Except.ok.inj ho
        refine yields_rejected fun db₂ hrolled => iff_of_true (fun shardId => ?_) fun hprepared =>
          absurd hprepared hunprepared
        exact congrFun (hrolled.trans hsources) shardId
      · rintro error' _ ⟨h, -⟩
        cases h
    · obtain ⟨rfl, rfl⟩ := Prod.mk.inj (Except.ok.inj h)
      -- what each shard holds when it is committed
      set source : String → DataSource := fun shardId => (db₁.working shardId).getD
        (db.sources shardId) with hsource
      have hcopies : ∀ p ∈ parts, Ready foreignKeys now fates db.sources p (source p.1) ∧
          db₁.working p.1 = some (source p.1) := by
        intro p hp
        obtain ⟨w, hready, hworking⟩ := hready p hp
        rw [hsource]
        simp only [hworking, Option.getD_some]
        exact ⟨hready, trivial⟩
      have hready : ∀ p ∈ parts, Ready foreignKeys now fates db.sources p
          (source p.1) := fun p hp => (hcopies p hp).1
      have hopen : ∀ shardId ∈ parts.map Prod.fst, db₁.working shardId = some (source shardId) :=
        List.forall_mem_map.mpr fun p hp => (hcopies p hp).2
      have hprepared : Prepared foreignKeys now fates db.sources parts := fun p hp =>
        ⟨_, hready p hp⟩
      rw [List.nil_append]
      refine yields_attempt_bind (yields_commitAll hnodup hopen) ?_
      rw [hsources]
      rintro (error | _) db₂ ⟨hcommitted, ho⟩
      · refine yields_rejected fun db₃ hrolled => ?_
        have hiff :=
          rejected_iff hready ho fun shardId => (congrFun hrolled shardId).trans
            (hcommitted shardId)
        exact ⟨fun hsame _ => hiff.mp hsame, fun htogether => hiff.mpr (htogether hprepared)⟩
      · refine yields_ret (iff_of_true (fun shardId => ?_) fun _ => .inl fun p hp => ho _
          (List.mem_map_of_mem hp))
        exact applied_of_committed hparts hready ho hcommitted shardId
  · rintro error db₁ ⟨-, -, ⟨_, _, h, -⟩ | ⟨h, -⟩⟩ <;> cases h

/-- The beginning of 1970, with a hash by length. -/
def early1970 : Environment where
  hashString := String.length
  localMonth := fun time => (1970, if time < 31 * 24 * 60 * 60 * 1000 then 0 else 1)
  stringify := fun _ _ => ""

/-- An insert of a trade at a time, which is placed by its month. -/
def insertTrade (id : String) (timestamp : ℤ) : Operation where
  entity := .trade
  data :=
    { userId := some 1, asset := some "BTC", type := some "BUY", amount := some 1,
      price := some 50000,
      timestamp := some timestamp }
  strategy := some "time"
  type := .insert
  generated := id

/-- Two shards without rows. -/
def twoShards : TransactionDb where
  sources := fun _ => .empty

/-- The database of the second shard is locked when it commits. -/
def lockedAtCommit (shardId : String) : ConnectionFates where
  commitTransaction := if shardId = "shard2" then .throws "SQLITE_BUSY: database is locked"
    else .succeeds

/-- A trade of January and one of February. -/
def halfCommitted : Except String Unit × TransactionDb :=
  (executeTransaction early1970 { shards := ["shard1", "shard2"] } 0
    [insertTrade "january" 0, insertTrade "february" (31 * 24 * 60 * 60 * 1000)]).eval
      (transact true 0 lockedAtCommit) twoShards

/-- **A transaction that rejects has changed a shard**: the first one has been committed when the
commit of the second one throws. -/
theorem half_committed :
    halfCommitted.1 = .error "SQLITE_BUSY: database is locked" ∧
    (halfCommitted.2.sources "shard1" .trade).rows.map (·.row.id) = ["january"] ∧
    (halfCommitted.2.sources "shard2" .trade).rows.map (·.row.id) = [] ∧
    ¬ AllOrNothing early1970 { shards := ["shard1", "shard2"] } true 0
      [insertTrade "january" 0, insertTrade "february" (31 * 24 * 60 * 60 * 1000)] twoShards.sources
        halfCommitted := by
  have herror : halfCommitted.1 = .error "SQLITE_BUSY: database is locked" := by decide +kernel
  have hfirst : (halfCommitted.2.sources "shard1" .trade).rows.map (·.row.id) = ["january"] := by
    decide +kernel
  have hsecond : (halfCommitted.2.sources "shard2" .trade).rows.map (·.row.id) = [] := by
    decide +kernel
  refine ⟨herror, hfirst, hsecond, fun h => ?_⟩
  rw [AllOrNothing, herror] at h
  have hsame : halfCommitted.2.sources "shard1" = twoShards.sources "shard1" := h "shard1"
  rw [hsame] at hfirst
  cases hfirst

end Sharding
