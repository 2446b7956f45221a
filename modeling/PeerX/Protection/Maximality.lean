import PeerX.Protection.AloneCoverage

/-!
# Protection: how much a coverage takes

A coverage debits what it has read of its funds. It leaves nothing behind in a fund, unless the fund
holds more than what was read of it last: a replenishment that commits after the read is not taken,
nor is a fund that was empty when it was read and is not any more. Alone, a coverage takes what
there is.

## Main results

* `safe_coverLoop_watched`: the tier walk empties the funds it could use
* `coverage_maximal`: partial coverages in every steady run, and a coverage that runs alone
-/

namespace Protection

open Relational Concurrency

/-- The asset of a coverage. -/
def Call.asset : Call → Option String
  | .cover _ _ _ asset _ => some asset
  | .record _ _ _ _ => none

/-- Nothing is left in the funds of the asset. When no balance can be negative, they are
zero. -/
def Exhausted (N : Prop) (asset : String) (d : ProtectionDb) : Prop :=
  ∀ tier, ∀ f ∈ fundOf d asset tier, f.balance ≤ 0 ∧ (N → f.balance = 0)

/-- A coverage that is recorded as partial leaves nothing, as its transaction sees it. -/
def LeavesNothing {ι : Type} (calls : ι → Call) (N : Prop) (i : ι) :
    Cmd Stmt Outcome → FundServer ι → Prop
  | .stmt (.insertLiquidation e), s =>
    e.status = "PARTIAL" → ∀ asset ∈ (calls i).asset, Exhausted N asset (s.view fundSql i)
  | _, _ => True

section Transactions

variable {ι α : Type} [DecidableEq ι] {calls : ι → Call} {d₀ : ProtectionDb} {N : Prop} {i : ι}
  {s : WatchedFunds ι} {k : ℕ} {amount remaining : ℚ} {options : InsuranceTransactionOptions}
  {r : Reading}

/-- A program in a transaction of a steady run. -/
abbrev WalkSafe (calls : ι → Call) (d₀ : ProtectionDb) (N : Prop) (i : ι)
    (Q : Except ProtectionError α → WatchedFunds ι → Prop) (p : Tx α) (s : WatchedFunds ι) : Prop :=
  (stmtProtocol (watchedProtocol (fundForm d₀ N) (LeavesNothing calls N))).Safe
    (onStatements ((fundSql.machine Outcome ι).observed.restrict Steady)) i Q p s

/-! ## A payout -/

omit [DecidableEq ι] in
/-- The last fund write of a transaction is what it sees. -/
theorem find_view_of_pending {t : FundServer ι} {ws : List Write} {f : InsuranceFund}
    (h : t.pending i = ws ++ [.fund f]) : (t.view fundSql i).funds.find f.id = some f := by
  rw [Server.view, h, Dialect.applyAll_append]
  exact Table.find_save_self _ f

/-- The audit of a payout reads the balance that the debit left. -/
theorem safe_audit_watched {ws : List Write} {f : InsuranceFund}
    (h : s.1.pending i = ws ++ [.fund f]) :
    WalkSafe calls d₀ N i (fun o s' => (∃ a, o = .ok a) ∧
        reads i s' = Function.update (reads i s) f.id (some (.fresh f)))
      (audit f.id .payout amount options) s := by
  unfold audit getFund
  simp only [Prog.perform_bind, Prog.call_bind]
  refine safe_watched_stmt fun s₁ hl _ _ => ⟨trivial, trivial, ?_⟩
  have hreply : fundSql.reply (.findFund f.id) (s₁.1.view fundSql i) = some f :=
    find_view_of_pending (hl.1.pending.trans h)
  rw [hreply]
  refine safe_watched_stmt fun s₂ hl₂ _ _ => ⟨trivial, trivial, ⟨_, rfl⟩, ?_⟩
  rw [reads_cons_of_none rfl, reads_of_later hl₂, reads_cons_of_some rfl, reads_of_later hl]
  rfl

/-- How a payout ends: the session knows what is left in the fund, or the debit was refused. -/
def Debited (i : ι) (m : ℕ → Option Reading) (k : ℕ) (amount : ℚ) (r : Reading) :
    Except ProtectionError α → WatchedFunds ι → Prop
  | .ok _, s => ∃ r', reads i s = Function.update m k (some r') ∧
      r'.fund.balance ≤ r.fund.balance - amount
  | .error (.badRequest _), s => reads i s = m ∧ ∀ f, r = .fresh f → f.balance < amount
  | .error _, _ => True

theorem lt_of_refused {d : ProtectionDb} {f : InsuranceFund} (hfind : d.funds.find k = some f)
    (h : debited d k amount = none) : f.balance < amount := by
  by_contra hle
  rw [debited_eq_some.mpr ⟨hfind, not_lt.mp hle⟩] at h
  cases h

variable (amount options) in
/-- A payout from a fund that was read. It is not refused after a fresh read that covers it. -/
theorem safe_payout (hr : reads i s k = some r) (hk : ∃ p ∈ d₀.layout.funds, p.1 = k) :
    WalkSafe calls d₀ N i (Debited i (reads i s) k amount r)
      (executeRecordTransaction k .payout amount options) s := by
  simp only [executeRecordTransaction, if_pos, Prog.perform_bind]
  refine safe_watched_stmt fun s₁ hl hinv hsteady => ⟨trivial, trivial, ?_⟩
  have hr₁ : reads i s₁ k = some r := by rw [reads_of_later hl, hr]
  rcases debit_cases k amount (s₁.1.view fundSql i) with
    ⟨-, hreply, hd⟩ | ⟨f, hfind, -, hupdates, hreply⟩
  · rw [show fundSql.reply (.debit k amount) (s₁.1.view fundSql i) = false from hreply]
    refine ⟨?_, fun g hg => ?_⟩
    · rw [reads_cons_of_none (c := .stmt (.debit k amount)) rfl, reads_of_later hl]
    · -- the fund is stored, with the balance that was read
      obtain ⟨p, hp, rfl⟩ := hk
      obtain ⟨f, hf, hplace⟩ : ∃ f ∈ (s₁.1.view fundSql i).funds.rows, f.place = p := by
        rw [← (hinv.view i).1] at hp
        exact List.mem_map.mp hp
      have hid : f.id = p.1 := congrArg Prod.fst hplace
      have hfind : (s₁.1.view fundSql i).funds.find p.1 = some f := hid ▸ Table.find_of_mem hf
      have hallows : r.Allows f.balance := hsteady f hfind r hr₁
      subst hg
      have heq : f.balance = g.balance := hallows
      rw [← heq]
      exact lt_of_refused hfind hd
  · obtain rfl : f.id = k := Table.key_of_find hfind
    have hle : f.balance ≤ r.fund.balance := (hsteady f hfind r hr₁).le
    rw [show fundSql.reply (.debit f.id amount) (s₁.1.view fundSql i) = true from hreply]
    have hwrites : fundSql.writes (.debit f.id amount) (s₁.1.view fundSql i) =
        [.fund { f with balance := f.balance - amount }] := hupdates.writes
    have hpending : (s₁.1.afterStmt fundSql i (.debit f.id amount)).pending i =
        s₁.1.pending i ++ [.fund { f with balance := f.balance - amount }] := by
      rw [Server.pending_afterStmt, hwrites]
    refine Protocol.safe_mono (fun o s' ho => ?_) (safe_audit_watched
      (f := { f with balance := f.balance - amount }) hpending)
    obtain ⟨⟨a, rfl⟩, hreads⟩ := ho
    refine ⟨.fresh { f with balance := f.balance - amount }, ?_, sub_le_sub_right hle amount⟩
    rw [hreads, reads_cons_of_none rfl, reads_of_later hl]

variable (amount options) in
theorem safe_tryPayout (hr : reads i s k = some r) (hk : ∃ p ∈ d₀.layout.funds, p.1 = k) :
    WalkSafe calls d₀ N i (fun o s' =>
        (∀ a, o = .ok (some a) → Debited i (reads i s) k amount r (.ok a) s') ∧
        (o = .ok none → reads i s' = reads i s ∧ ∀ f, r = .fresh f → f.balance < amount))
      (tryCatch (some <$> executeRecordTransaction k .payout amount options) fun
        | .badRequest _ => return none
        | err => throw err) s := by
  refine Protocol.safe_tryCatch ?_
  rw [map_eq_pure_bind]
  refine Protocol.safe_bind (Protocol.safe_mono (fun o s' ho => ?_)
    (safe_payout amount options hr hk))
  rcases o with e | a
  · cases e with
    | badRequest message => exact ⟨fun a ha => (by cases ha), fun _ => ho⟩
    | notFound message => exact ⟨fun a ha => (by cases ha), fun hn => by cases hn⟩
    | error message => exact ⟨fun a ha => (by cases ha), fun hn => by cases hn⟩
  · refine ⟨fun a' ha' => ?_, fun hn => by cases hn⟩
    cases ha'
    exact ho

/-! ## The attempts -/

/-- How the attempts end: the other funds were not read, and unless all that remained was paid, the
session has read that nothing is left. -/
def Emptied (i : ι) (m : ℕ → Option Reading) (k : ℕ) (remaining : ℚ) (paid : Option ℚ)
    (s : WatchedFunds ι) : Prop :=
  (∀ k', k' ≠ k → reads i s k' = m k') ∧
    ((∀ a ∈ paid, a < remaining) → ∃ r, reads i s k = some r ∧ r.fund.balance ≤ 0)

theorem emptied_of_debited {m m₀ : ℕ → Option Reading} {a : α} (hm : ∀ k', k' ≠ k → m k' = m₀ k')
    (h : Debited i m k (min r.fund.balance remaining) r (.ok a) s) :
    Emptied i m₀ k remaining (some (min r.fund.balance remaining)) s := by
  obtain ⟨r', hreads, hle⟩ := h
  refine ⟨fun k' hk' => ?_, fun hlt => ⟨r', ?_, ?_⟩⟩
  · rw [hreads, Function.update_of_ne hk', hm k' hk']
  · rw [hreads, Function.update_self]
  · -- less than what remained: the payout was all that was read
    have hmin := hlt _ rfl
    rcases min_lt_iff.mp hmin with hlt | hlt
    · rw [min_eq_left hlt.le, sub_self] at hle
      exact hle
    · exact absurd hlt (lt_irrefl _)

/-- The second attempt is not refused. -/
theorem safe_retry {f : InsuranceFund} {m₀ : ℕ → Option Reading} {n : ℕ}
    (hr : reads i s k = some (.fresh f)) (hk : ∃ p ∈ d₀.layout.funds, p.1 = k)
    (hm : ∀ k', k' ≠ k → reads i s k' = m₀ k') :
    WalkSafe calls d₀ N i (fun o s' => ∀ paid, o = .ok paid → Emptied i m₀ k remaining paid s')
      (attemptPayout k remaining options (n + 1) 1 (min f.balance remaining)) s := by
  simp only [attemptPayout]
  refine Protocol.safe_bind (Protocol.safe_mono (fun o s' ho => ?_)
    (safe_tryPayout (min f.balance remaining) options hr hk))
  obtain ⟨hpaid, hrefused⟩ := ho
  rcases o with e | _ | a
  · rintro paid ⟨⟩
  · obtain ⟨-, hlt⟩ := hrefused rfl
    exact absurd (hlt f rfl) (not_lt.mpr (min_le_left _ _))
  · rintro paid ⟨⟩
    exact emptied_of_debited (r := .fresh f) hm (hpaid a rfl)

/-- Both attempts for a fund that was read before the transaction. -/
theorem safe_attempts {f : InsuranceFund} (hr : reads i s k = some (.advisory f))
    (hk : ∃ p ∈ d₀.layout.funds, p.1 = k) :
    WalkSafe calls d₀ N i
      (fun o s' => ∀ paid, o = .ok paid → Emptied i (reads i s) k remaining paid s')
      (attemptPayout k remaining options maxDebitAttemptsPerTier 0 (min f.balance remaining)) s := by
  unfold maxDebitAttemptsPerTier
  simp only [attemptPayout]
  refine Protocol.safe_bind (Protocol.safe_mono (fun o s₁ ho => ?_)
    (safe_tryPayout (min f.balance remaining) options hr hk))
  obtain ⟨hpaid, hrefused⟩ := ho
  rcases o with e | _ | a
  · rintro paid ⟨⟩
  · -- refused: the fund is read again
    obtain ⟨hsame, -⟩ := hrefused rfl
    unfold getFund
    simp only [Prog.perform_bind, Prog.call_bind, lt_irrefl, if_false]
    refine safe_watched_stmt fun s₂ hl hinv _ => ⟨trivial, trivial, ?_⟩
    cases hfind : fundSql.reply (.findFund k) (s₂.1.view fundSql i) with
    | none => rintro paid ⟨⟩
    | some fresh =>
      obtain rfl : fresh.id = k := Table.key_of_find hfind
      have hreads := reads_cons_of_some (i := i) (s := s₂)
        (t := s₂.1.afterStmt fundSql i (.findFund fresh.id)) (b := s₂.1)
        (c := .stmt (.findFund fresh.id)) (a := some fresh) (r := .fresh fresh) rfl
      rw [reads_of_later hl, hsame] at hreads
      have hothers : ∀ k', k' ≠ fresh.id → Function.update (reads i s)
          (Reading.fresh fresh).fund.id (some (.fresh fresh)) k' = reads i s k' :=
        fun k' hk' => Function.update_of_ne hk' _ _
      show WalkSafe calls d₀ N i _ (if fresh.balance ≤ 0 then _ else _) _
      split
      · -- the fund is empty by now
        next hle =>
        rintro paid ⟨⟩
        refine ⟨fun k' hk' => ?_, fun _ => ⟨.fresh fresh, ?_, hle⟩⟩
        · rw [hreads, hothers k' hk']
        · rw [hreads]
          exact Function.update_self ..
      · -- one more attempt, for what is left
        refine safe_retry (n := 0) ?_ hk fun k' hk' => ?_
        · rw [hreads]
          exact Function.update_self ..
        · rw [hreads, hothers k' hk']
  · rintro paid ⟨⟩
    exact emptied_of_debited (r := .advisory f) (fun _ _ => rfl) (hpaid a rfl)

/-! ## The tier walk -/

/-- The advisory reads have found the fund of every tier that has one. -/
structure Found (d₀ : ProtectionDb) (asset : String) (fundsByTier : List (FundTier × InsuranceFund)) :
    Prop where
  sound : ∀ p ∈ fundsByTier, d₀.layout.fundId asset p.1 = some p.2.id
  complete : ∀ tier k, d₀.layout.fundId asset tier = some k → ∃ f, (tier, f) ∈ fundsByTier

/-- The invariant of the tier walk: the funds of the tiers ahead are as they were read, and if
anything remains, the session has read that nothing is left in those behind. -/
structure Walking (d₀ : ProtectionDb) (asset : String) (fundsByTier : List (FundTier × InsuranceFund))
    (m : ℕ → Option Reading) (tiers : List FundTier) (c : Coverage) : Prop where
  ahead : ∀ p ∈ fundsByTier, p.1 ∈ tiers → m p.2.id = some (.advisory p.2)
  behind : 0 < c.remaining → ∀ tier, tier ∉ tiers → ∀ k, d₀.layout.fundId asset tier = some k →
    ∃ r, m k = some r ∧ r.fund.balance ≤ 0

variable {asset : String} {fundsByTier : List (FundTier × InsuranceFund)} {m : ℕ → Option Reading}
  {tier : FundTier} {tiers : List FundTier} {c c' : Coverage} {f : InsuranceFund}

omit [DecidableEq ι] in
/-- The next tier is skipped: it has no fund, or nothing was left in it when it was read. -/
theorem Walking.skip (h : Walking d₀ asset fundsByTier m (tier :: tiers) c)
    (hempty : ∀ k, d₀.layout.fundId asset tier = some k → ∃ r, m k = some r ∧ r.fund.balance ≤ 0) :
    Walking d₀ asset fundsByTier m tiers c := by
  refine ⟨fun p hp htier => h.ahead p hp (List.mem_cons_of_mem _ htier), ?_⟩
  intro hpos tier' hnot k hk
  by_cases he : tier' = tier
  · subst he
    exact hempty k hk
  · exact h.behind hpos tier' (fun hmem => (List.mem_cons.mp hmem).elim he hnot) k hk

/-- The attempts for the fund of the next tier. -/
theorem Walking.attempted (h : Walking d₀ asset fundsByTier m (tier :: tiers) c)
    (hfound : Found d₀ asset fundsByTier) (hnodup : (tier :: tiers).Nodup)
    (hmem : (tier, f) ∈ fundsByTier) {paid : Option ℚ} (he : Emptied i m f.id c.remaining paid s)
    (hc : 0 < c'.remaining → 0 < c.remaining ∧ ∀ a ∈ paid, a < c.remaining) :
    Walking d₀ asset fundsByTier (reads i s) tiers c' := by
  have hf : d₀.layout.fundId asset tier = some f.id := hfound.sound _ hmem
  constructor
  · intro p hp htier
    -- the fund of another tier is another fund
    have hne : p.2.id ≠ f.id := by
      intro hid
      have hp' := hfound.sound p hp
      rw [hid] at hp'
      have htiers : p.1 = tier := tier_eq_of_fundId hp' hf
      exact (List.nodup_cons.mp hnodup).1 (htiers ▸ htier)
    rw [he.1 _ hne]
    exact h.ahead p hp (List.mem_cons_of_mem _ htier)
  · intro hpos tier' hnot k hk
    obtain ⟨hremaining, hpaid⟩ := hc hpos
    by_cases htier : tier' = tier
    · subst htier
      obtain rfl : f.id = k := Option.some.inj (hf.symm.trans hk)
      exact he.2 hpaid
    · have hne : k ≠ f.id := by
        rintro rfl
        exact htier (tier_eq_of_fundId hk hf)
      rw [he.1 _ hne]
      exact h.behind hremaining tier' (fun hmem => (List.mem_cons.mp hmem).elim htier hnot) k hk

/-- **The tier walk** leaves nothing behind that it has not read to be empty. -/
theorem safe_coverLoop_watched (hfound : Found d₀ asset fundsByTier) (hnodup : tiers.Nodup)
    (h : Walking d₀ asset fundsByTier (reads i s) tiers c) :
    WalkSafe calls d₀ N i
      (fun o s' => ∀ c', o = .ok c' → Walking d₀ asset fundsByTier (reads i s') [] c')
      (coverLoop fundsByTier options tiers c) s := by
  induction tiers generalizing s c with
  | nil =>
    rintro c' ⟨⟩
    exact h
  | cons tier tiers ih =>
    have hrest := (List.nodup_cons.mp hnodup).2
    simp only [coverLoop]
    split
    · next hle =>
      rintro c' ⟨⟩
      exact ⟨fun p _ htier => (by cases htier), fun hpos => absurd hpos (not_lt.mpr hle)⟩
    · next hpos =>
      have hremaining : 0 < c.remaining := not_le.mp hpos
      cases hfind : fundsByTier.find? (·.1 = tier) with
      | none =>
        -- the tier has no fund
        refine ih hrest (h.skip fun k hk => ?_)
        obtain ⟨f, hf⟩ := hfound.complete tier k hk
        simpa using List.find?_eq_none.mp hfind _ hf
      | some p =>
        obtain ⟨tier', fund⟩ := p
        have hmem : (tier', fund) ∈ fundsByTier := List.mem_of_find?_eq_some hfind
        obtain rfl : tier' = tier := by simpa using List.find?_some hfind
        have hread := h.ahead _ hmem List.mem_cons_self
        show WalkSafe calls d₀ N i _ (if fund.balance ≤ 0 then _ else _) s
        split
        · next hle =>
          -- its fund was empty when it was read
          refine ih hrest (h.skip fun k hk => ?_)
          obtain rfl : fund.id = k := Option.some.inj ((hfound.sound _ hmem).symm.trans hk)
          exact ⟨_, hread, hle⟩
        · have hplace : ∃ p ∈ d₀.layout.funds, p.1 = fund.id := by
            have hid := hfound.sound _ hmem
            rw [← map_id_fundOf] at hid
            obtain ⟨g, hg, hgid⟩ := Option.map_eq_some_iff.mp hid
            exact ⟨g.place, List.mem_map_of_mem (mem_of_fundOf hg), hgid⟩
          refine Protocol.safe_bind (Protocol.safe_mono (fun o s' ho => ?_)
            (safe_attempts hread hplace))
          rcases o with e | _ | a
          · rintro c' ⟨⟩
          · refine ih hrest (h.attempted hfound hnodup hmem (ho none rfl) fun _ => ?_)
            exact ⟨hremaining, fun a ha => by cases ha⟩
          · refine ih hrest (h.attempted hfound hnodup hmem (ho (some a) rfl) fun hleft => ?_)
            refine ⟨hremaining, fun a' ha' => ?_⟩
            cases ha'
            exact sub_pos.mp hleft

/-- The transaction of `coverShortfall` records a partial coverage when nothing is left. -/
theorem safe_coverTransaction_watched {userId : ℕ} {shortfallAmount : ℚ} {positionId : Option String}
    (hasset : (calls i).asset = some asset) (hfound : Found d₀ asset fundsByTier)
    (hnodup : tiers.Nodup) (hall : ∀ tier, tier ∈ tiers)
    (hread : ∀ p ∈ fundsByTier, reads i s p.2.id = some (.advisory p.2)) :
    WalkSafe calls d₀ N i (fun _ _ => True)
      (coverTransaction userId shortfallAmount positionId fundsByTier tiers) s := by
  unfold coverTransaction
  have hstart : Walking d₀ asset fundsByTier (reads i s) tiers ⟨shortfallAmount, [], none⟩ :=
    ⟨fun p hp _ => hread p hp, fun _ tier hnot => absurd (hall tier) hnot⟩
  refine Protocol.safe_bind (Protocol.safe_mono (fun o s₁ ho => ?_)
    (safe_coverLoop_watched hfound hnodup hstart))
  cases o with
  | error e => trivial
  | ok c =>
    refine safe_watched_stmt fun s₂ hl hinv hsteady => ⟨trivial, ?_, trivial⟩
    intro hstatus asset' hasset' tier f hf
    obtain rfl : asset = asset' := Option.some.inj (hasset.symm.trans hasset')
    have hremaining : 0 < c.remaining := by
      by_contra hle
      simp [Coverage.result, not_lt.mp hle] at hstatus
    have hid : d₀.layout.fundId asset tier = some f.id := by
      rw [← (hinv.view i).1, ← map_id_fundOf, hf]
      rfl
    obtain ⟨r, hr, hempty⟩ := (ho c rfl).behind hremaining tier List.not_mem_nil f.id hid
    rw [← reads_of_later hl] at hr
    have hmem := mem_of_fundOf hf
    have hle : f.balance ≤ 0 := (hsteady f hmem r hr).trans hempty
    exact ⟨hle, fun hN => le_antisymm hle (((hinv.view i).2 f hmem).nonneg hN)⟩

end Transactions

/-! ## Sessions -/

section Sessions

variable {ι α γ : Type} [DecidableEq ι] {calls : ι → Call} {d₀ : ProtectionDb} {N : Prop} {i : ι}
  {s : WatchedFunds ι} {asset : String} {tier : FundTier} {tiers : List FundTier}

/-- A session of a steady run. -/
abbrev WatchSafe (calls : ι → Call) (d₀ : ProtectionDb) (N : Prop) (i : ι)
    (Q : Except ProtectionError α → WatchedFunds ι → Prop) (p : ProtectionSession α)
    (s : WatchedFunds ι) : Prop :=
  (watchedProtocol (fundForm d₀ N) (LeavesNothing calls N)).Safe
    ((fundSql.machine Outcome ι).observed.restrict Steady) i Q p s

theorem WatchSafe.bind {p : ProtectionSession α} {f : α → ProtectionSession γ}
    {Q : α → WatchedFunds ι → Prop} {Q' : γ → WatchedFunds ι → Prop}
    (hp : WatchSafe calls d₀ N i (fun o s' => ∀ a, o = .ok a → Q a s') p s)
    (hf : ∀ a (s' : WatchedFunds ι), Q a s' →
      WatchSafe calls d₀ N i (fun o s' => ∀ a, o = .ok a → Q' a s') (f a) s') :
    WatchSafe calls d₀ N i (fun o s' => ∀ a, o = .ok a → Q' a s') (p >>= f) s := by
  refine Protocol.safe_bind (Protocol.safe_mono (fun o s' ho => ?_) hp)
  cases o with
  | error e => exact fun a ha => by cases ha
  | ok a => exact hf a s' (ho a rfl)

/-! ### The advisory reads -/

/-- How a lookup ends: with the fund of the tier, as it was read, or without one. -/
structure LookedUp (i : ι) (d₀ : ProtectionDb) (asset : String) (tier : FundTier)
    (m : ℕ → Option Reading) (found : Option InsuranceFund) (s : WatchedFunds ι) : Prop where
  fundId : d₀.layout.fundId asset tier = found.map (·.id)
  read : ∀ f ∈ found, reads i s f.id = some (.advisory f)
  others : ∀ k, d₀.layout.fundId asset tier ≠ some k → reads i s k = m k

theorem lookedUp_none {m : ℕ → Option Reading} (hid : d₀.layout.fundId asset tier = none)
    (hreads : reads i s = m) : LookedUp i d₀ asset tier m none s :=
  ⟨hid, fun f hf => (by cases hf), fun k _ => congrFun hreads k⟩

/-- `getFundsByTier` finds the fund of the tier. -/
theorem safe_getFundsByTier_watched : WatchSafe calls d₀ N i (fun o s' =>
      (∀ f, o = .ok f → LookedUp i d₀ asset tier (reads i s) (some f) s') ∧
      (∀ e, o = .error e → (∃ message, e = .notFound message) ∧
        LookedUp i d₀ asset tier (reads i s) none s'))
    (getFundsByTier tier asset) s := by
  unfold getFundsByTier
  -- the tier: it is where it was at the start, whatever has been committed since
  refine safe_watched_auto fun s₁ hl₁ hinv₁ _ => ⟨trivial, trivial, ?_⟩
  have htiers : d₀.layout.tiers.find? (·.tier = tier) =
      fundSql.reply (.findTier tier) s₁.1.committed := by
    rw [← hinv₁.committed.1]
    rfl
  have hreads₁ := reads_cons_of_none (i := i) (s := s₁) (b := s₁.1)
    (t := s₁.1.afterAuto fundSql (.findTier tier)) (c := .auto (.findTier tier))
    (a := fundSql.reply (.findTier tier) s₁.1.committed) rfl
  rw [reads_of_later hl₁] at hreads₁
  generalize fundSql.reply (.findTier tier) s₁.1.committed = found at htiers hreads₁ ⊢
  cases found with
  | none =>
    refine ⟨fun f hf => (by cases hf), fun e he => ?_⟩
    cases he
    refine ⟨⟨_, rfl⟩, lookedUp_none ?_ hreads₁⟩
    rw [Layout.fundId, htiers]
    rfl
  | some t =>
    -- the fund: its place is fixed, its balance is a reading
    refine safe_watched_auto fun s₂ hl₂ hinv₂ _ => ⟨trivial, trivial, ?_⟩
    have hfund : d₀.layout.fundId asset tier =
        (fundSql.reply (.findFundOfTier t.id asset) s₂.1.committed).map (·.id) := by
      rw [Layout.fundId, htiers, ← hinv₂.committed.1]
      exact (map_id_findFundOfTier s₂.1.committed t.id asset).symm
    cases hfound : fundSql.reply (.findFundOfTier t.id asset) s₂.1.committed with
    | none =>
      rw [hfound] at hfund
      refine ⟨fun f hf => (by cases hf), fun e he => ?_⟩
      cases he
      refine ⟨⟨_, rfl⟩, lookedUp_none hfund ?_⟩
      rw [reads_cons_of_none (c := .auto (.findFundOfTier t.id asset)) rfl, reads_of_later hl₂,
        hreads₁]
    | some fund =>
      rw [hfound] at hfund
      refine ⟨fun f hf => ?_, fun e he => by cases he⟩
      cases hf
      have hreads₂ := reads_cons_of_some (i := i) (s := s₂) (b := s₂.1)
        (t := s₂.1.afterAuto fundSql (.findFundOfTier t.id asset))
        (c := .auto (.findFundOfTier t.id asset)) (a := some fund) (r := .advisory fund) rfl
      rw [reads_of_later hl₂, hreads₁] at hreads₂
      refine ⟨hfund, fun f hf => ?_, fun k hk => ?_⟩
      · cases hf
        rw [hreads₂]
        exact Function.update_self ..
      · have hne : k ≠ fund.id := fun h => hk (hfund.trans (congrArg some h.symm))
        rw [hreads₂]
        exact Function.update_of_ne hne _ _

/-- The lookup for one tier, with a missing fund skipped. -/
theorem safe_tryFund_watched : WatchSafe calls d₀ N i (fun o s' => ∀ found, o = .ok found →
      LookedUp i d₀ asset tier (reads i s) found s')
    (tryCatch (some <$> getFundsByTier tier asset) fun
      | .notFound _ => return none
      | err => throw err) s := by
  refine Protocol.safe_tryCatch ?_
  rw [map_eq_pure_bind]
  refine Protocol.safe_bind (Protocol.safe_mono (fun o s' ho => ?_) safe_getFundsByTier_watched)
  obtain ⟨hok, herror⟩ := ho
  cases o with
  | ok f =>
    rintro found ⟨⟩
    exact hok f rfl
  | error e =>
    obtain ⟨⟨message, rfl⟩, hnone⟩ := herror e rfl
    rintro found ⟨⟩
    exact hnone

/-- The advisory reads have found the funds of the tiers, and read nothing else. -/
structure Advised (i : ι) (d₀ : ProtectionDb) (asset : String) (m : ℕ → Option Reading)
    (tiers : List FundTier) (fundsByTier : List (FundTier × InsuranceFund)) (s : WatchedFunds ι) :
    Prop where
  sound : ∀ p ∈ fundsByTier, p.1 ∈ tiers ∧ d₀.layout.fundId asset p.1 = some p.2.id ∧
    reads i s p.2.id = some (.advisory p.2)
  complete : ∀ tier ∈ tiers, ∀ k, d₀.layout.fundId asset tier = some k →
    ∃ f, (tier, f) ∈ fundsByTier
  others : ∀ k, (∀ tier ∈ tiers, d₀.layout.fundId asset tier ≠ some k) → reads i s k = m k

theorem Advised.cons {m : ℕ → Option Reading} {s' : WatchedFunds ι}
    {fundsByTier : List (FundTier × InsuranceFund)} {found : Option InsuranceFund}
    (hnot : tier ∉ tiers) (hlook : LookedUp i d₀ asset tier m found s)
    (h : Advised i d₀ asset (reads i s) tiers fundsByTier s') :
    Advised i d₀ asset m (tier :: tiers) (found.toList.map (tier, ·) ++ fundsByTier) s' := by
  constructor
  · intro p hp
    rcases List.mem_append.mp hp with hp | hp
    · -- the fund of the tier was not read again
      obtain ⟨fund, hfund, rfl⟩ := List.mem_map.mp hp
      obtain rfl : found = some fund := Option.mem_toList.mp hfund
      have hid : d₀.layout.fundId asset tier = some fund.id := hlook.fundId
      refine ⟨List.mem_cons_self, hid, ?_⟩
      rw [h.others fund.id fun tier' htier' hk => hnot (tier_eq_of_fundId hid hk ▸ htier')]
      exact hlook.read fund rfl
    · obtain ⟨htier, hp⟩ := h.sound p hp
      exact ⟨List.mem_cons_of_mem _ htier, hp⟩
  · intro tier' htier' k hk
    rcases List.mem_cons.mp htier' with rfl | htier'
    · rw [hlook.fundId] at hk
      obtain ⟨fund, rfl, -⟩ := Option.map_eq_some_iff.mp hk
      exact ⟨fund, List.mem_append_left _ List.mem_cons_self⟩
    · obtain ⟨f, hf⟩ := h.complete tier' htier' k hk
      exact ⟨f, List.mem_append_right _ hf⟩
  · intro k hk
    rw [h.others k fun tier' htier' => hk tier' (List.mem_cons_of_mem _ htier')]
    exact hlook.others k (hk tier List.mem_cons_self)

/-- The advisory reads of the tiers. -/
theorem safe_findFunds_watched (hnodup : tiers.Nodup) :
    WatchSafe calls d₀ N i (fun o s' => ∀ l, o = .ok l → Advised i d₀ asset (reads i s) tiers l s')
      (findFunds asset tiers) s := by
  induction tiers generalizing s with
  | nil =>
    rintro l ⟨⟩
    exact ⟨fun p hp => (by cases hp), fun tier hmem => (by cases hmem), fun k _ => rfl⟩
  | cons tier tiers ih =>
    obtain ⟨hnot, hrest⟩ := List.nodup_cons.mp hnodup
    simp only [findFunds]
    refine WatchSafe.bind safe_tryFund_watched fun found s₁ hlook => ?_
    refine WatchSafe.bind (ih hrest) fun fundsByTier s₂ hadvised => ?_
    have hcons := Advised.cons hnot hlook hadvised
    rintro l ⟨⟩
    cases found with
    | none => exact hcons
    | some fund => exact hcons

/-! ### The other parts -/

/-- A session that needs to know nothing, and what follows it. -/
theorem WatchSafe.seq {p : ProtectionSession α} {f : α → ProtectionSession γ}
    (hp : WatchSafe calls d₀ N i (fun _ _ => True) p s)
    (hf : ∀ a (s' : WatchedFunds ι), WatchSafe calls d₀ N i (fun _ _ => True) (f a) s') :
    WatchSafe calls d₀ N i (fun _ _ => True) (p >>= f) s := by
  refine Protocol.safe_bind (Protocol.safe_mono (fun o s' _ => ?_) hp)
  cases o with
  | error e => trivial
  | ok a => exact hf a s'

/-- A recorded transaction. A credit is not negative when `N` holds. -/
theorem safe_executeRecordTransaction_watched {k : ℕ} {type : InsuranceTxType} {amount : ℚ}
    {options : InsuranceTransactionOptions} (hamount : N → 0 ≤ amount) :
    WalkSafe calls d₀ N i (fun _ _ => True) (executeRecordTransaction k type amount options) s := by
  have haudit : ∀ s' : WatchedFunds ι,
      WalkSafe calls d₀ N i (fun _ _ => True) (audit k type amount options) s' := by
    intro s'
    unfold audit getFund
    simp only [Prog.perform_bind, Prog.call_bind]
    refine safe_watched_stmt fun s₁ _ _ _ => ⟨trivial, trivial, ?_⟩
    cases fundSql.reply (.findFund k) (s₁.1.view fundSql i) with
    | none => trivial
    | some f => exact safe_watched_stmt fun s₂ _ _ _ => ⟨trivial, trivial, trivial⟩
  unfold executeRecordTransaction
  split
  · simp only [Prog.perform_bind]
    refine safe_watched_stmt fun s₁ _ _ _ => ⟨trivial, trivial, ?_⟩
    cases fundSql.reply (.debit k amount) (s₁.1.view fundSql i) with
    | false => trivial
    | true => exact haudit _
  · simp only [Prog.perform_bind]
    exact safe_watched_stmt fun s₁ _ _ _ => ⟨hamount, trivial, haudit _⟩

/-- A health refresh keeps the place and the balance of the fund it has read. -/
theorem safe_updateFundHealth_watched {k : ℕ} :
    WatchSafe calls d₀ N i (fun _ _ => True) (updateFundHealth k) s := by
  unfold updateFundHealth
  refine safe_watched_auto fun s₁ _ hinv _ => ⟨trivial, trivial, ?_⟩
  cases hfind : fundSql.reply (.findFund k) s₁.1.committed with
  | none => trivial
  | some f =>
    have hfine := hinv.committed.2 f (Table.mem_of_find hfind)
    exact safe_watched_auto fun s₂ _ _ _ => ⟨⟨hfine.place, hfine.nonneg⟩, trivial, trivial⟩

theorem safe_refreshAll_watched {fundsUsed : List FundUsed} :
    WatchSafe calls d₀ N i (fun _ _ => True) (refreshAll fundsUsed) s := by
  induction fundsUsed generalizing s with
  | nil => trivial
  | cons used fundsUsed ih => exact WatchSafe.seq safe_updateFundHealth_watched fun _ _ => ih

theorem safe_watchedTransaction {p : Tx α} {res : α → Outcome}
    (hp : WalkSafe calls d₀ N i (fun _ _ => True) p s) :
    WatchSafe calls d₀ N i (fun _ _ => True) (transaction res p) s :=
  safe_watched_transaction (fun _ _ => trivial) (fun _ => trivial) hp

/-- `coverShortfall` records a partial coverage when nothing is left. -/
theorem safe_coverShortfall_watched {userId : ℕ} {shortfallAmount : ℚ} {positionId : Option String}
    {preferredTier : Option FundTier} (hasset : (calls i).asset = some asset) :
    WatchSafe calls d₀ N i (fun _ _ => True)
      (coverShortfall userId shortfallAmount positionId asset preferredTier) s := by
  have hall : ∀ tier, tier ∈ tiersToTry preferredTier := by
    intro tier
    rw [(tiersToTry_perm preferredTier).mem_iff]
    cases tier <;> decide
  unfold coverShortfall
  split
  · trivial
  · refine Protocol.safe_bind (Protocol.safe_mono (fun o s₁ ho => ?_)
      (safe_findFunds_watched (nodup_tiersToTry preferredTier)))
    cases o with
    | error e => trivial
    | ok fundsByTier =>
      have hadvised := ho fundsByTier rfl
      have hfound : Found d₀ asset fundsByTier :=
        ⟨fun p hp => (hadvised.sound p hp).2.1, fun tier => hadvised.complete tier (hall tier)⟩
      exact WatchSafe.seq (safe_watchedTransaction (safe_coverTransaction_watched hasset hfound
          (nodup_tiersToTry preferredTier) hall fun p hp => (hadvised.sound p hp).2.2))
        fun _ _ => WatchSafe.seq safe_refreshAll_watched fun _ _ => trivial

/-- Every call. -/
theorem Call.watchSafe (hamounts : N → ∀ i fundId type amount options,
      calls i = .record fundId type amount options → 0 ≤ amount) :
    WatchSafe calls d₀ N i (fun _ _ => True) (calls i).session s := by
  cases hcall : calls i with
  | record fundId type amount options =>
    have hrecord : WatchSafe calls d₀ N i (fun _ _ => True)
        (recordTransaction fundId type amount options) s :=
      WatchSafe.seq (safe_watchedTransaction (safe_executeRecordTransaction_watched
          fun hN => hamounts hN i _ _ _ _ hcall))
        fun _ _ => WatchSafe.seq safe_updateFundHealth_watched fun _ _ => trivial
    exact WatchSafe.seq hrecord fun _ _ => trivial
  | cover userId shortfallAmount positionId asset preferredTier =>
    have hasset : (calls i).asset = some asset := by
      rw [hcall]
      rfl
    exact WatchSafe.seq (safe_coverShortfall_watched hasset) fun _ _ => trivial

end Sessions

/-! ## Every run -/

/-- The server of the calls, with the commands it executes. -/
abbrev watchedMachine (ι : Type) [DecidableEq ι] :
    Machine (Cmd Stmt Outcome) (Cmd.Reply Stmt.Reply Outcome) ι (WatchedFunds ι) :=
  (fundSql.machine Outcome ι).observed

/-- Any number of calls at the same time, before their first statement. -/
def watching {ι : Type} (calls : ι → Call) (d₀ : ProtectionDb) :
    Config (Cmd Stmt Outcome) (Cmd.Reply Stmt.Reply Outcome) ProtectionError Unit ι (WatchedFunds ι) :=
  ⟨(Server.idle d₀, []), fun i => (calls i).session⟩

/-- No balance is negative, and no call records a negative amount. -/
structure Nonnegative {ι : Type} (calls : ι → Call) (d₀ : ProtectionDb) : Prop where
  balances : ∀ f ∈ d₀.funds.rows, 0 ≤ f.balance
  amounts : ∀ i fundId type amount options, calls i = .record fundId type amount options → 0 ≤ amount

variable {ι : Type} [DecidableEq ι]

/-- **A partial coverage leaves nothing** in the funds of its asset, in every steady run; and a
coverage that runs alone takes the smaller one of the shortfall and what there is. The amounts are
held exactly, and stay so. -/
theorem coverage_maximal {calls : ι → Call} {d₀ : ProtectionDb} (hd : d₀.Exact) (hcalls : ∀ i, (calls i).Exact)
    {is : List ι}
    {c : Config (Cmd Stmt Outcome) (Cmd.Reply Stmt.Reply Outcome) ProtectionError Unit ι
      (WatchedFunds ι)}
    (hr : (watching calls d₀).run (watchedMachine ι) is = some c)
    (ha : (watching calls d₀).Admitted (watchedMachine ι) Steady is) :
    (∀ e ∈ c.shared.2, LeavesNothing calls (Nonnegative calls d₀) e.thread e.command e.before) ∧
    c.shared.1.committed.Exact ∧ ∀ i userId shortfallAmount positionId asset preferredTier d, d.Exact →
      calls i = .cover userId shortfallAmount positionId asset preferredTier → 0 < shortfallAmount →
      ∃ n c event, (serving calls d).run (fundSql.machine Outcome ι) (List.replicate n i) = some c ∧
        (c.threads i).returned ∧ c.shared.committed.liquidations = d.liquidations ++ [event] ∧
        event.coveredAmount = min shortfallAmount (tierPriority.map (available d asset)).sum ∧
        c.shared.committed.Exact := by
  refine ⟨?_, exact_run hd hcalls (Machine.run_of_observed hr),
    fun i userId shortfallAmount positionId asset preferredTier d hexact hcall hpos => ?_⟩
  rotate_left
  · obtain ⟨n, c', event, hrun, hreturned, hevent, hcovered⟩ := coverShortfall_alone hcall hpos d
    exact ⟨n, c', event, hrun, hreturned, hevent, hcovered, exact_run hexact hcalls hrun⟩
  have hstart : (fundForm d₀ (Nonnegative calls d₀)).db d₀ :=
    ⟨rfl, fun f hf => ⟨List.mem_map_of_mem hf, fun hN => hN.balances f hf⟩⟩
  have hsafe := Protocol.run_safe
    (T := watchedProtocol (fundForm d₀ (Nonnegative calls d₀))
      (LeavesNothing calls (Nonnegative calls d₀)))
    (Q := fun _ _ _ => True) (c := watching calls d₀) (fun _ _ _ _ _ _ => trivial)
    ⟨⟨Dialect.WellFormed.inv_idle hstart, fun e he => by cases he⟩,
      fun i => Call.watchSafe fun hN => hN.amounts⟩ (Config.run_restrict hr ha)
  exact hsafe.1.2

/-- The payout commits after the coverage has read the funds: the second debit takes what is left,
and so does the debit of the next fund. -/
theorem coverage_maximal_retried : ∃ c,
    (watching coverAndPayout (twoFunds 20 20)).run (watchedMachine Bool) payoutInBetween = some c ∧
    (∀ e ∈ c.shared.2, LeavesNothing coverAndPayout (Nonnegative coverAndPayout (twoFunds 20 20))
      e.thread e.command e.before) ∧
    c.shared.1.committed.Exact ∧ ∀ i userId shortfallAmount positionId asset preferredTier d, d.Exact →
      coverAndPayout i = .cover userId shortfallAmount positionId asset preferredTier →
      0 < shortfallAmount → ∃ n c event,
        (serving coverAndPayout d).run (fundSql.machine Outcome Bool) (List.replicate n i) = some c ∧
        (c.threads i).returned ∧ c.shared.committed.liquidations = d.liquidations ++ [event] ∧
        event.coveredAmount = min shortfallAmount (tierPriority.map (available d asset)).sum ∧
        c.shared.committed.Exact := by
  have hrun : ((watching coverAndPayout (twoFunds 20 20)).run (watchedMachine Bool)
      payoutInBetween).isSome := by
    decide +kernel
  obtain ⟨c, hc⟩ := Option.isSome_iff_exists.mp hrun
  exact ⟨c, hc, coverage_maximal exact_twoFunds exact_coverAndPayout hc (by decide +kernel)⟩

/-- A shortfall of 30, and a replenishment of the first fund by 100. -/
def coverAndReplenish : Bool → Call
  | true => .cover 1 30 (some "pos-1") "USDT" none
  | false => .record 1 .replenishment 100 ⟨none, none⟩

/-- A partial coverage was recorded with money left in a fund. -/
def Leaves {ι : Type} (asset : String) : FundEvent ι → Bool
  | ⟨i, before, .stmt (.insertLiquidation event), _⟩ => event.status = "PARTIAL" ∧
    ∃ tier ∈ tierPriority, 0 < available (before.view fundSql i) asset tier
  | _ => false

omit [DecidableEq ι] in
theorem not_leavesNothing {calls : ι → Call} {N : Prop} {asset : String} {e : FundEvent ι}
    (hasset : (calls e.thread).asset = some asset) (h : Leaves asset e) :
    ¬ LeavesNothing calls N e.thread e.command e.before := by
  obtain ⟨i, before, command, reply⟩ := e
  cases command with
  | stmt c =>
    cases c with
    | insertLiquidation event =>
      obtain ⟨hstatus, tier, -, havailable⟩ := of_decide_eq_true h
      intro hnothing
      unfold available at havailable
      cases hf : fundOf (before.view fundSql i) asset tier with
      | none => simp [hf] at havailable
      | some f =>
        have hempty := (hnothing hstatus asset hasset tier f hf).1
        simp [hf, not_lt.mpr hempty] at havailable
    | _ => cases h
  | _ => cases h

/-- **A partial coverage that leaves 100.** The first fund is empty when the coverage reads it, and
the replenishment commits before the transaction of the coverage begins. -/
theorem replenishment_skipped : ∃ c,
    (watching coverAndReplenish (twoFunds 0 20)).run (watchedMachine Bool)
      (List.replicate 6 true ++ List.replicate 6 false ++ List.replicate 7 true) = some c ∧
    (∀ i, (c.threads i).returned) ∧
    (∃ event ∈ c.shared.1.committed.liquidations,
      event.status = "PARTIAL" ∧ event.coveredAmount = 20) ∧
    available c.shared.1.committed "USDT" .low = 100 ∧
    ¬ ∀ e ∈ c.shared.2, LeavesNothing coverAndReplenish
      (Nonnegative coverAndReplenish (twoFunds 0 20)) e.thread e.command e.before := by
  have hrun : ((watching coverAndReplenish (twoFunds 0 20)).run (watchedMachine Bool)
      (List.replicate 6 true ++ List.replicate 6 false ++ List.replicate 7 true)).any fun c =>
        (∀ i, (c.threads i).returned) ∧
        (∃ event ∈ c.shared.1.committed.liquidations,
          event.status = "PARTIAL" ∧ event.coveredAmount = 20) ∧
        available c.shared.1.committed "USDT" .low = 100 ∧
        ∃ e ∈ c.shared.2, e.thread = true ∧ Leaves "USDT" e := by
    decide +kernel
  obtain ⟨c, hc, hrest⟩ := (Option.any_eq_true _ _).mp hrun
  obtain ⟨hreturned, hstatus, havailable, e, he, hthread, hleaves⟩ := of_decide_eq_true hrest
  refine ⟨c, hc, hreturned, hstatus, havailable, fun hall => ?_⟩
  refine not_leavesNothing ?_ hleaves (hall e he)
  rw [hthread]
  rfl

end Protection
