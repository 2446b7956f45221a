import PeerX.Audit.Chain
import Mathlib.Logic.Function.Basic

/-!
# Audit: concurrent calls

A call of `log` reads the latest entry and saves an entry with its checksum. Other calls may save
theirs in between, and the database may give two entries the same time. The saved entries stay a
chain exactly when each call saves while the entry that it read is still the last one, and later
than it.

## Main results

* `Consistent.step`: what each step keeps
* `intact_iff`: when the verification reports a valid chain, whatever the order of equal times
* `intact_run_iff`: the runs after which it does
-/

namespace Audit

open Concurrency HashChain Serialization

/-- Where a call of `log` is: before the query, between the query and the insert, or done. -/
inductive LogPhase where
  | called
  | found (previousChecksum : JsString) (now : ℤ)
  | resolved (saved : AuditLog)
  | rejected

/-- The table, and the calls. -/
structure LogState (ι : Type) where
  rows : List AuditLog
  phases : ι → LogPhase

/-- A step of a call: the query, with the answer of the database and the clock, and the insert, with
what the database gives to the entry. -/
inductive LogStep (ι : Type) where
  | findOne (i : ι) (lastEntry : Option AuditLog) (now : ℤ)
  | save (i : ι) (id : String) (createdAt : ℤ)

/-- The latest entry, or one of them. -/
def IsLatest (rows : List AuditLog) : Option AuditLog → Prop
  | none => rows = []
  | some a => a ∈ rows ∧ ∀ b ∈ rows, b.createdAt ≤ a.createdAt

variable {ι : Type} [DecidableEq ι]

/-- The steps of the calls. -/
def logStep (sha256 : Sha256) (dtos : ι → CreateAuditLogDto) (s : LogState ι) : LogStep ι → LogState ι
  | .findOne i lastEntry now =>
    match s.phases i with
    | .called => { s with phases := Function.update s.phases i (.found (previousOf lastEntry) now) }
    | _ => s
  | .save i id createdAt =>
    match s.phases i with
    | .found previousChecksum now =>
      let row := entry sha256 (dtos i) previousChecksum now id createdAt
      match save s.rows row with
      | some rows => { rows, phases := Function.update s.phases i (.resolved row) }
      | none => { s with phases := Function.update s.phases i .rejected }
    | _ => s

/-- The calls on an empty table. -/
def LogState.start : LogState ι where
  rows := []
  phases := fun _ => .called

/-- What the database does: it answers with a latest entry, and the times of the entries do not
decrease. -/
def Possible (s : LogState ι) : LogStep ι → Prop
  | .findOne _ lastEntry _ => IsLatest s.rows lastEntry
  | .save _ _ createdAt => ∀ row ∈ s.rows, row.createdAt ≤ createdAt

/-- The entry that a call read is the last one when it saves, and its time is an earlier one. An
entry that is refused, since its checksum is there already, does not matter. -/
def Careful (sha256 : Sha256) (dtos : ι → CreateAuditLogDto) (s : LogState ι) : LogStep ι → Prop
  | .findOne _ _ _ => True
  | .save i id createdAt => ∀ previousChecksum now, s.phases i = .found previousChecksum now →
      (entry sha256 (dtos i) previousChecksum now id createdAt).checksum ∉ s.rows.map AuditLog.checksum →
        ∀ last ∈ s.rows.getLast?, previousChecksum = last.checksum ∧ last.createdAt < createdAt

/-- An untampered log is reported as valid, and it has the entries of the calls that
resolved. -/
def Intact (s : LogState ι) : Prop :=
  (∀ i row, s.phases i = .resolved row → row ∈ s.rows) ∧ ∀ logs, Answers s.rows logs → (verify logs).valid

/-- A call is done. -/
def LogPhase.IsDone : LogPhase → Prop
  | .resolved _ => True
  | .rejected => True
  | _ => False

/-- What the steps keep. -/
structure Consistent (sha256 : Sha256) (s : LogState ι) : Prop where
  hashed : ∀ row ∈ s.rows, Hashed sha256 row
  ordered : s.rows.Pairwise fun a b => a.createdAt ≤ b.createdAt
  first : ∀ row ∈ s.rows.head?, row.previousChecksum = genesis
  found_genesis : s.rows = [] → ∀ i previousChecksum now, s.phases i = .found previousChecksum now →
    previousChecksum = genesis
  stored : ∀ i row, s.phases i = .resolved row → row ∈ s.rows

variable {sha256 : Sha256} {dtos : ι → CreateAuditLogDto} {s : LogState ι}

omit [DecidableEq ι] in
theorem Consistent.start (sha256 : Sha256) : Consistent sha256 (LogState.start : LogState ι) where
  hashed := by simp [LogState.start]
  ordered := List.Pairwise.nil
  first := by simp [LogState.start]
  found_genesis := fun _ _ _ _ h => by cases h
  stored := fun _ _ h => by cases h

/-! ## One step -/

/-- A step that adds no entry: no call resolves, and what a call has found is what the query
returned. -/
structure Quiet (sha256 : Sha256) (dtos : ι → CreateAuditLogDto) (s : LogState ι) (e : LogStep ι) : Prop where
  rows_eq : (logStep sha256 dtos s e).rows = s.rows
  resolved_of : ∀ i row, (logStep sha256 dtos s e).phases i = .resolved row → s.phases i = .resolved row
  found_of : ∀ i previousChecksum now, (logStep sha256 dtos s e).phases i = .found previousChecksum now →
    s.phases i = .found previousChecksum now ∨
      ∃ lastEntry, e = .findOne i lastEntry now ∧ previousChecksum = previousOf lastEntry
  careful : Careful sha256 dtos s e

/-- A step that adds an entry. -/
def Adds (sha256 : Sha256) (dtos : ι → CreateAuditLogDto) (s : LogState ι) (e : LogStep ι) : Prop :=
  ∃ i id createdAt previousChecksum now, e = .save i id createdAt ∧ s.phases i = .found previousChecksum now ∧
    (entry sha256 (dtos i) previousChecksum now id createdAt).checksum ∉ s.rows.map AuditLog.checksum ∧
    logStep sha256 dtos s e =
      ⟨s.rows ++ [entry sha256 (dtos i) previousChecksum now id createdAt],
        Function.update s.phases i (.resolved (entry sha256 (dtos i) previousChecksum now id createdAt))⟩

theorem Quiet.of_eq {e : LogStep ι} (h : logStep sha256 dtos s e = s) (hcareful : Careful sha256 dtos s e) :
    Quiet sha256 dtos s e where
  rows_eq := by rw [h]
  resolved_of := by simp [h]
  found_of := fun i previousChecksum now hfound => .inl (by rwa [h] at hfound)
  careful := hcareful

/-- The query of a call adds no entry. What it finds is the last entry, or nothing. -/
theorem quiet_findOne {i : ι} (hphase : s.phases i = .called) (lastEntry : Option AuditLog) (now : ℤ) :
    Quiet sha256 dtos s (.findOne i lastEntry now) := by
  have hstep : logStep sha256 dtos s (.findOne i lastEntry now) =
      { s with phases := Function.update s.phases i (.found (previousOf lastEntry) now) } := by
    simp only [logStep, hphase]
  refine ⟨by rw [hstep], fun j row hrow => ?_, fun j previousChecksum now' hfound => ?_, trivial⟩
  · rw [hstep] at hrow
    by_cases hij : j = i
    · subst hij
      simp at hrow
    · simpa [hij] using hrow
  · rw [hstep] at hfound
    by_cases hij : j = i
    · subst hij
      simp only [Function.update_self, LogPhase.found.injEq] at hfound
      exact .inr ⟨lastEntry, by rw [hfound.2], hfound.1.symm⟩
    · exact .inl (by simpa [hij] using hfound)

/-- A save whose checksum is stored already is rejected. -/
theorem quiet_save_rejected {i : ι} {previousChecksum : JsString} {now : ℤ} {id : String} {createdAt : ℤ}
    (hphase : s.phases i = .found previousChecksum now)
    (hstored : (entry sha256 (dtos i) previousChecksum now id createdAt).checksum ∈ s.rows.map AuditLog.checksum) :
    Quiet sha256 dtos s (.save i id createdAt) := by
  have hstep : logStep sha256 dtos s (.save i id createdAt) =
      { s with phases := Function.update s.phases i .rejected } := by
    simp only [logStep, hphase, save, if_pos hstored]
  have hphases : ∀ j phase, (logStep sha256 dtos s (.save i id createdAt)).phases j = phase →
      phase ≠ .rejected → s.phases j = phase := by
    intro j phase hj hne
    rw [hstep] at hj
    by_cases hij : j = i
    · subst hij
      simp only [Function.update_self] at hj
      exact absurd hj.symm hne
    · simpa [hij] using hj
  refine ⟨by rw [hstep], fun j row hrow => hphases j _ hrow (by simp), fun j previousChecksum' now' hfound =>
    .inl (hphases j _ hfound (by simp)), ?_⟩
  intro previousChecksum' now' hfound hnew
  obtain ⟨rfl, rfl⟩ := LogPhase.found.inj (hphase.symm.trans hfound)
  exact absurd hstored hnew

/-- What a step does. -/
theorem quiet_or_adds (sha256 : Sha256) (dtos : ι → CreateAuditLogDto) (s : LogState ι) (e : LogStep ι) :
    Quiet sha256 dtos s e ∨ Adds sha256 dtos s e := by
  cases e with
  | findOne i lastEntry now =>
    left
    cases hphase : s.phases i with
    | called => exact quiet_findOne hphase lastEntry now
    | _ => exact Quiet.of_eq (by simp only [logStep, hphase]) trivial
  | save i id createdAt =>
    cases hphase : s.phases i with
    | found previousChecksum now =>
      by_cases hstored : (entry sha256 (dtos i) previousChecksum now id createdAt).checksum ∈
          s.rows.map AuditLog.checksum
      · exact .inl (quiet_save_rejected hphase hstored)
      · right
        refine ⟨i, id, createdAt, previousChecksum, now, rfl, hphase, hstored, ?_⟩
        simp only [logStep, hphase, save, if_neg hstored]
    | _ =>
      left
      refine Quiet.of_eq (by simp only [logStep, hphase]) fun previousChecksum now hfound => ?_
      rw [hphase] at hfound
      cases hfound

/-- **Each step keeps what is consistent.** -/
theorem Consistent.step (h : Consistent sha256 s) {e : LogStep ι} (he : Possible s e) :
    Consistent sha256 (logStep sha256 dtos s e) := by
  rcases quiet_or_adds sha256 dtos s e with hquiet | ⟨i, id, createdAt, previousChecksum, now, rfl, hphase, -, hstep⟩
  · constructor
    · rw [hquiet.rows_eq]
      exact h.hashed
    · rw [hquiet.rows_eq]
      exact h.ordered
    · rw [hquiet.rows_eq]
      exact h.first
    · rw [hquiet.rows_eq]
      intro hnil i previousChecksum now hfound
      rcases hquiet.found_of i previousChecksum now hfound with hold | ⟨lastEntry, rfl, rfl⟩
      · exact h.found_genesis hnil i previousChecksum now hold
      · -- a query of the empty table finds nothing
        cases lastEntry with
        | none => rfl
        | some a => simp [hnil, Possible, IsLatest] at he
    · rw [hquiet.rows_eq]
      exact fun i row hrow => h.stored i row (hquiet.resolved_of i row hrow)
  · rw [hstep]
    constructor
    · intro row hrow
      rcases List.mem_append.mp hrow with hrow | hrow
      · exact h.hashed row hrow
      · exact List.mem_singleton.mp hrow ▸ hashed_entry _ _ _ _ _
    · refine List.pairwise_append.mpr ⟨h.ordered, List.pairwise_singleton _ _, fun row hrow a ha => ?_⟩
      exact List.mem_singleton.mp ha ▸ he row hrow
    · intro row hrow
      cases hrows : s.rows with
      | nil =>
        rw [hrows] at hrow
        obtain rfl : entry sha256 (dtos i) previousChecksum now id createdAt = row := Option.some.inj hrow
        exact h.found_genesis hrows i previousChecksum now hphase
      | cons a rows =>
        apply h.first
        rw [hrows] at hrow ⊢
        exact hrow
    · intro hnil
      simp at hnil
    · intro j row hrow
      by_cases hji : j = i
      · subst hji
        obtain rfl := LogPhase.resolved.inj ((Function.update_self j _ s.phases).symm.trans hrow)
        exact List.mem_append_right _ (List.mem_singleton_self _)
      · have hold := (Function.update_of_ne hji _ s.phases).symm.trans hrow
        exact List.mem_append_left _ (h.stored j row hold)

/-! ## When the verification reports a valid chain -/

/-- The entries are linked, and their times are different ones. -/
def Sequential (s : LogState ι) : Prop :=
  InOrder s.rows ∧ Linked AuditLog.previousChecksum AuditLog.checksum s.rows

omit [DecidableEq ι] in
theorem Consistent.grown (h : Consistent sha256 s) (hlinked : Linked AuditLog.previousChecksum AuditLog.checksum s.rows) :
    Grown AuditLog.previousChecksum AuditLog.checksum genesis s.rows where
  head := h.first
  linked := hlinked
  committed := fun a ha b hb heq => (h.hashed a ha).committed (h.hashed b hb) heq
  rooted := fun a ha => (h.hashed a ha).ne_genesis

omit [DecidableEq ι] in
/-- **When the verification reports a valid chain.** Two entries with the same time can be found in
either order, and one of the orders is not linked. -/
theorem intact_iff (h : Consistent sha256 s) : Intact s ↔ Sequential s := by
  constructor
  · rintro ⟨-, hvalid⟩
    have hlinked := valid_iff_linked.mp (hvalid s.rows ⟨List.Perm.refl _, h.ordered⟩)
    refine ⟨?_, hlinked⟩
    have : IsTrans AuditLog fun a b => a.createdAt < b.createdAt := ⟨fun _ _ _ => lt_trans⟩
    refine List.isChain_iff_pairwise.mp (List.isChain_iff_forall_rel_of_append_cons_cons.mpr ?_)
    intro a b as bs hrows
    have hordered := hrows ▸ h.ordered
    have hgrown : Grown AuditLog.previousChecksum AuditLog.checksum genesis (as ++ a :: ([] ++ b :: bs)) :=
      hrows ▸ h.grown hlinked
    by_contra hlt
    -- the two entries have the same time
    have htail := (List.pairwise_append.mp hordered).2.1
    obtain ⟨ha, hrest⟩ := List.pairwise_cons.mp htail
    obtain ⟨hb, hbs⟩ := List.pairwise_cons.mp hrest
    have heq : a.createdAt = b.createdAt := le_antisymm (ha b List.mem_cons_self) (not_lt.mp hlt)
    apply hgrown.not_linked_exchange rfl rfl
    refine valid_iff_linked.mp (hvalid (as ++ b :: a :: bs) ⟨?_, ?_⟩)
    · rw [hrows]
      exact List.Perm.append_left as (List.Perm.swap a b bs)
    · obtain ⟨has, -, hcross⟩ := List.pairwise_append.mp hordered
      refine List.pairwise_append.mpr ⟨has, List.pairwise_cons.mpr ⟨?_, List.pairwise_cons.mpr ⟨?_, hbs⟩⟩, ?_⟩
      · intro c hc
        rcases List.mem_cons.mp hc with rfl | hc
        · exact heq.ge
        · exact hb c hc
      · exact fun c hc => ha c (List.mem_cons_of_mem _ hc)
      · intro c hc d hd
        apply hcross c hc d
        simp only [List.mem_cons] at hd ⊢
        tauto
  · rintro ⟨horder, hlinked⟩
    refine ⟨h.stored, fun logs hlogs => ?_⟩
    obtain rfl := hlogs.eq horder (List.Perm.refl _)
    exact valid_iff_linked.mpr hlinked

theorem inOrder_concat {rows : List AuditLog} {a : AuditLog} (h : InOrder rows) :
    InOrder (rows ++ [a]) ↔ ∀ last ∈ rows.getLast?, last.createdAt < a.createdAt := by
  have : IsTrans AuditLog fun a b => a.createdAt < b.createdAt := ⟨fun _ _ _ => lt_trans⟩
  have hchain : InOrder (rows ++ [a]) ↔ (rows ++ [a]).IsChain fun a b => a.createdAt < b.createdAt :=
    List.isChain_iff_pairwise.symm
  rw [hchain, List.isChain_append]
  constructor
  · rintro ⟨-, -, hlast⟩ last hmem
    exact hlast last hmem a rfl
  · intro hlast
    refine ⟨List.isChain_iff_pairwise.mpr h, List.isChain_singleton a, fun last hmem b hb => ?_⟩
    obtain rfl : a = b := Option.some.inj hb
    exact hlast last hmem

/-- One step keeps the entries sequential exactly when it is careful. -/
theorem sequential_step_iff (e : LogStep ι) :
    Sequential (logStep sha256 dtos s e) ↔ Sequential s ∧ Careful sha256 dtos s e := by
  rcases quiet_or_adds sha256 dtos s e with hquiet | ⟨i, id, createdAt, previousChecksum, now, rfl, hphase, hnew, hstep⟩
  · rw [Sequential, hquiet.rows_eq]
    exact (and_iff_left hquiet.careful).symm
  · have hcareful : Careful sha256 dtos s (.save i id createdAt) ↔
        ∀ last ∈ s.rows.getLast?, previousChecksum = last.checksum ∧ last.createdAt < createdAt := by
      constructor
      · exact fun h => h previousChecksum now hphase hnew
      · intro h previousChecksum' now' hphase' _
        obtain ⟨rfl, rfl⟩ := LogPhase.found.inj (hphase.symm.trans hphase')
        exact h
    rw [hcareful, hstep]
    constructor
    · rintro ⟨horder, hlinked⟩
      have hbefore : Sequential s := ⟨(List.pairwise_append.mp horder).1, hlinked.of_concat⟩
      exact ⟨hbefore, fun last hlast =>
        ⟨(linked_concat hbefore.2).mp hlinked last hlast, (inOrder_concat hbefore.1).mp horder last hlast⟩⟩
    · rintro ⟨⟨horder, hlinked⟩, hlast⟩
      exact ⟨(inOrder_concat horder).mpr fun last hmem => (hlast last hmem).2,
        (linked_concat hlinked).mpr fun last hmem => (hlast last hmem).1⟩

/-- **The runs after which the log is intact** are those in which each call is careful. -/
theorem intact_run_iff (sha256 : Sha256) (dtos : ι → CreateAuditLogDto) (steps : List (LogStep ι))
    (h : Along (logStep sha256 dtos) Possible .start steps) :
    Intact (run (logStep sha256 dtos) .start steps) ↔
      Along (logStep sha256 dtos) (Careful sha256 dtos) .start steps := by
  have hstart : Consistent sha256 (.start : LogState ι) := Consistent.start sha256
  have hconsistent : Consistent sha256 (run (logStep sha256 dtos) .start steps) :=
    run_invariant (fun s e hs he => hs.step he) hstart h
  have hsequential : Sequential (.start : LogState ι) := ⟨List.Pairwise.nil, List.isChain_nil⟩
  have hrun : Sequential (run (logStep sha256 dtos) .start steps) ↔
      Sequential .start ∧ Along (logStep sha256 dtos) (Careful sha256 dtos) .start steps :=
    run_iff_along (fun s e hs he => hs.step he) (fun s e _ _ => sequential_step_iff e) hstart h
  rw [intact_iff hconsistent, hrun]
  exact and_iff_right hsequential

/-- Two users log in. -/
def twoLogins : Fin 2 → CreateAuditLogDto
  | 0 => login "u1"
  | 1 => login "u2"

/-- Both calls query the empty table, and then each saves its entry. -/
def overlapping : List (LogStep (Fin 2)) :=
  [.findOne 0 none 0, .findOne 1 none 1000, .save 0 "first" 0, .save 1 "second" 1000]

/-- The entry of the first user, and an entry of the second one that is linked to no other. -/
def firstLogins : List AuditLog :=
  [entry computed (login "u1") genesis 0 "first" 0, entry computed (login "u2") genesis 1000 "second" 1000]

theorem nodup_firstLogins : (firstLogins.map AuditLog.checksum).Nodup := by decide +kernel

theorem run_overlapping : run (logStep computed twoLogins) .start overlapping =
    ⟨firstLogins, Function.update (Function.update (Function.update (Function.update (fun _ => .called)
      0 (.found genesis 0)) 1 (.found genesis 1000)) 0 (.resolved (entry computed (login "u1") genesis 0 "first" 0)))
      1 (.resolved (entry computed (login "u2") genesis 1000 "second" 1000))⟩ := by
  have hnew : ¬ (entry computed (login "u2") genesis 1000 "second" 1000).checksum =
      (entry computed (login "u1") genesis 0 "first" 0).checksum := by
    have hnodup := nodup_firstLogins
    simp only [firstLogins, List.map_cons, List.map_nil, List.nodup_cons, List.mem_singleton] at hnodup
    exact fun heq => hnodup.1 heq.symm
  simp [overlapping, logStep, LogState.start, twoLogins, previousOf, save, hnew, firstLogins]

/-- Both calls resolve, and the untampered log is reported as broken. -/
theorem overlapping_not_intact :
    Along (logStep computed twoLogins) Possible .start overlapping ∧
      (∀ i, ((run (logStep computed twoLogins) .start overlapping).phases i).IsDone) ∧
      ¬ Intact (run (logStep computed twoLogins) .start overlapping) := by
  refine ⟨?_, ?_, ?_⟩
  · refine ⟨rfl, rfl, by simp [logStep, LogState.start, Possible], ?_, trivial⟩
    simp [logStep, LogState.start, Possible, save, entry]
  · rw [run_overlapping]
    exact Fin.forall_fin_two.mpr ⟨trivial, trivial⟩
  · rw [run_overlapping]
    rintro ⟨-, hvalid⟩
    have hlinked := valid_iff_linked.mp (hvalid firstLogins ⟨List.Perm.refl _, by simp [firstLogins, entry]⟩)
    have hgenesis : genesis = (entry computed (login "u1") genesis 0 "first" 0).checksum :=
      (List.isChain_cons_cons.mp hlinked).1
    exact (hashed_entry _ _ _ _ _).ne_genesis hgenesis.symm

/-- The calls one after the other, the second one with the entry of the first. -/
def consecutive : List (LogStep (Fin 2)) :=
  [.findOne 0 none 0, .save 0 "first" 0, .findOne 1 (some (entry computed (login "u1") genesis 0 "first" 0)) 1000,
    .save 1 "second" 1000]

theorem consecutive_intact_iff : Intact (run (logStep computed twoLogins) .start consecutive) ↔
    Along (logStep computed twoLogins) (Careful computed twoLogins) .start consecutive := by
  refine intact_run_iff computed twoLogins consecutive ⟨rfl, ?_, ?_, ?_, trivial⟩
  · simp [logStep, LogState.start, Possible]
  · simp [logStep, LogState.start, Possible, save, IsLatest, previousOf, twoLogins]
  · simp [logStep, LogState.start, Possible, save, previousOf, twoLogins, entry]

end Audit
