import PeerX.Protection.LiquidationProtection

/-!
# Protection: sessions under interference

The sessions of the insurance fund services, statement by statement, between the statements of other
sessions. A policy is a property of the views of the funds that a recorded transaction keeps; the
transaction breaks it on the fund it changes until the audit row is stored, and holds the lock of
the fund meanwhile. The health refresh saves a fund that was read before without a lock, so a policy
says over which stored fund such a save is admitted.

## Main results

* `safe_executeRecordTransaction`, `safe_coverTransaction`: the transactions keep the policy
* `Call.safe`, `serving_safe`: so does every session
* `exact_run`: numbers that doubles and columns hold exactly stay so
-/

namespace Protection

open Relational Concurrency Arithmetic

variable {ι : Type} [DecidableEq ι]

/-- The server of the insurance fund services. -/
abbrev FundServer (ι : Type) := Server ProtectionDb Write ℕ Outcome ι

/-! ## Policies -/

/-- The place of a fund in the lock order of its asset. -/
def ProtectionDb.rank (d : ProtectionDb) (order : String → List FundTier) (k : ℕ) : ℕ :=
  match d.funds.find k with
  | none => 0
  | some fund =>
    match d.tiers.find fund.tierId with
    | none => 0
    | some tier => (order fund.asset).idxOf tier.tier

/-- What no session changes: the tiers, which funds there are, and their tiers and assets. -/
structure SameFund (home : ProtectionDb) (k : ℕ) (v : FundView) : Prop where
  tiers : v.tiers = home.tiers
  isSome : v.fund.isSome = (home.funds.find k).isSome
  same : ∀ f, v.fund = some f →
    ∃ g, home.funds.find k = some g ∧ g.tierId = f.tierId ∧ g.asset = f.asset

/-- A policy: a property of the views of the funds that recorded transactions keep (`recorded`),
and health refreshes where they are admitted (`refreshed`). A coverage calculates with balances and
the shortfall, which are numbers in `coverOk`. When it is `ordered`, the funds of an asset are
locked in the order `order`. -/
structure FundPolicy where
  home : ProtectionDb
  good : ℕ → FundView → Prop
  amountOk : ℚ → Prop
  coverOk : ℚ → Prop
  admits : InsuranceFund → InsuranceFund → Prop
  ordered : Prop
  order : String → List FundTier
  amountOk_of_cover : ∀ {a}, 0 ≤ a → coverOk a → amountOk a
  coverOk_sub : ∀ {a b}, coverOk a → coverOk b → coverOk (a - b)
  coverOk_balance : ∀ {v f}, good f.id v → v.fund = some f → coverOk f.balance
  recorded : ∀ {v f type amount} (options), good f.id v → v.fund = some f → amountOk amount →
    (type = .payout → amount ≤ f.balance) →
    good f.id ⟨some (f.moved type amount),
      v.transactions ++ [auditRow (f.moved type amount) type amount options], v.tiers⟩
  refreshed : ∀ {v v' f g}, good f.id v → v.fund = some f → good f.id v' → v'.fund = some g →
    admits g f.refreshed → good f.id { v' with fund := some f.refreshed }

namespace FundPolicy

variable (π : FundPolicy)

/-- The invariant of a fund. -/
structure Good (k : ℕ) (v : FundView) : Prop where
  same : SameFund π.home k v
  good : π.good k v

/-- The place of a fund in the lock order. -/
def rank (k : ℕ) : ℕ := π.home.rank π.order k

/-- The condition on a statement about to be executed: it locks in order. -/
def LocksInOrder (i : ι) (c : Stmt) (s : FundServer ι) : Prop :=
  π.ordered → ∀ k ∈ c.locks (s.view fundSql i), InOrder π.rank s i k

/-- All rows the session holds rank below `n`. -/
def Below (s : FundServer ι) (i : ι) (n : ℕ) : Prop :=
  π.ordered → ∀ k, s.holder k = some i → π.rank k < n

/-- The protocol of the sessions. -/
abbrev protocol (ι : Type) [DecidableEq ι] : Protocol (Cmd Stmt Outcome) ι (FundServer ι) :=
  rowsProtocol fundRows π.Good π.LocksInOrder

/-- The save of a health refresh is admitted over the stored fund. -/
def FreshSave (_ : ι) : Cmd Stmt Outcome → FundServer ι → Prop
  | .auto (.saveFund f), s => ∀ g ∈ s.committed.funds.find f.id, π.admits g f
  | _, _ => True

end FundPolicy

variable {π : FundPolicy} {s s' : FundServer ι} {i : ι}

/-- The rank of a fund found by its tier is the place of the tier. -/
theorem rank_of_found {k : ℕ} {v : FundView} {f : InsuranceFund} {t : InsuranceFundTier}
    (hv : π.Good k v) (hf : v.fund = some f) (ht : t ∈ π.home.tiers.rows)
    (htier : f.tierId = t.id) : π.rank k = (π.order f.asset).idxOf t.tier := by
  obtain ⟨g, hg, htierId, hasset⟩ := hv.same.same f hf
  have hfind : π.home.tiers.find g.tierId = some t := by
    rw [htierId, htier]
    exact Table.find_of_mem ht
  simp only [FundPolicy.rank, ProtectionDb.rank, hg, hfind, hasset]

omit [DecidableEq ι] in
theorem below_of_clear (h : s.Clear i) (n : ℕ) : π.Below s i n :=
  fun _ k hk => absurd hk (h.holder k)

omit [DecidableEq ι] in
theorem FundPolicy.Below.mono {n m : ℕ} (h : π.Below s i n) (hle : n ≤ m) : π.Below s i m :=
  fun ho k hk => (h ho k hk).trans_le hle

omit [DecidableEq ι] in
theorem FundPolicy.Below.of_holding {n : ℕ} (h : π.Below s i n) (hr : Holding fundRows i s s') :
    π.Below s' i n :=
  fun ho k hk => h ho k ((hr.1.holder k).mp hk)

/-- A statement that locks only rows that rank below `n`. -/
theorem FundPolicy.Below.afterStmt {n : ℕ} (h : π.Below s i n) {c : Stmt}
    (hc : π.ordered → ∀ k ∈ c.locks (s.view fundSql i), π.rank k < n) :
    π.Below (s.afterStmt fundSql i c) i n := by
  intro ho k hk
  simp only [Server.afterStmt] at hk
  split at hk
  · next hmem => exact hc ho k hmem
  · exact h ho k hk

/-! ## Recording a transaction -/

/-- The statements of a transaction keep the policy, and end in `Q`. -/
abbrev StmtSafe (π : FundPolicy) {α : Type} (i : ι) (Q : Except ProtectionError α → FundServer ι → Prop)
    (p : Tx α) (s : FundServer ι) : Prop :=
  (stmtProtocol (π.protocol ι)).Safe (fundSql.statements Outcome ι) i Q p s

section Recording

variable {k : ℕ} {type : InsuranceTxType} {amount : ℚ} {options : InsuranceTransactionOptions}

/-- The audit of a fund that was changed and is held settles the transaction. -/
theorem safe_audit {n : ℕ} {f : InsuranceFund} {ts : List InsuranceTransaction}
    {tiers : Table InsuranceFundTier.id} (hid : f.id = k)
    (h : SettledBut fundRows π.Good s i k ⟨some f, ts, tiers⟩)
    (hgood : π.Good k ⟨some f, ts ++ [auditRow f type amount options], tiers⟩)
    (hbelow : π.Below s i n) :
    StmtSafe π i (fun o s' => (∃ a, o = .ok a) ∧ Settled fundRows π.Good s' i ∧ π.Below s' i n)
      (audit k type amount options) s := by
  unfold audit getFund
  simp only [Prog.perform_bind, Prog.call_bind]
  refine safe_rows_stmt (fun s₁ _ _ _ k' hk' => by cases hk') fun s₁ hr₁ hinv₁ => ?_
  have h₁ := h.of_holding hr₁ hinv₁.owned
  have hbelow₁ := hbelow.of_holding hr₁
  obtain ⟨hfund, hts, htiers⟩ := FundView.mk.inj h₁.obs
  have hreply : fundSql.reply (.findFund k) (s₁.view fundSql i) = some f := hfund
  rw [hreply]
  -- the fund is held, so it reads back as it was written
  have h₂ : SettledBut fundRows π.Good (s₁.afterStmt fundSql i (.findFund k)) i k
      ⟨some f, ts, tiers⟩ := by
    have hread := settledBut_afterStmt (O := fundRows) (c := .findFund k) h₁.others (.inl h₁.holder)
      (fun w hw => by cases hw)
    rw [← h₁.obs]
    exact hread
  have hbelow₂ := hbelow₁.afterStmt (c := .findFund k) fun _ k' hk' => by cases hk'
  show StmtSafe π i _ (Prog.call (.insertTransaction (auditRow f type amount options)) fun _ =>
    pure (f, auditRow f type amount options)) _
  refine safe_rows_stmt (fun s₃ hr₃ _ _ k' hk' => ?_) fun s₃ hr₃ hinv₃ => ?_
  · obtain rfl : k' = k := by simpa [Stmt.locks, auditRow, hid] using hk'
    exact .inl ((hr₃.1.holder k').mpr h₂.holder)
  · have h₃ := h₂.of_holding hr₃ hinv₃.owned
    have hbelow₃ := hbelow₂.of_holding hr₃
    obtain ⟨hfund₃, hts₃, htiers₃⟩ := FundView.mk.inj h₃.obs
    have hwrites : ∀ w ∈ fundSql.writes (.insertTransaction (auditRow f type amount options))
        (s₃.view fundSql i), fundSql.target w = some k := by
      intro w hw
      obtain rfl : w = .transaction (auditRow f type amount options) := by
        simpa [fundSql, Stmt.writes] using hw
      exact congrArg some hid
    have h₄ := settledBut_afterStmt (O := fundRows)
      (c := .insertTransaction (auditRow f type amount options)) h₃.others (.inl h₃.holder) hwrites
    -- the row settles the fund's account
    refine ⟨⟨_, rfl⟩, h₄.settle ?_, hbelow₃.afterStmt fun ho k' hk' => ?_⟩
    · have hobs := obs_transaction (d := s₃.view fundSql i)
        (t := auditRow f type amount options) hid
      rw [hfund₃, hts₃, htiers₃] at hobs
      exact hobs ▸ hgood
    · obtain rfl : k' = k := by simpa [Stmt.locks, auditRow, hid] using hk'
      exact hbelow₃ ho k' h₃.holder

theorem safe_audit_missing {n : ℕ} (h : Settled fundRows π.Good s i)
    (hnone : π.home.funds.find k = none) (hbelow : π.Below s i n) :
    StmtSafe π i (fun o s' => (∃ e, o = .error e) ∧ Settled fundRows π.Good s' i ∧ π.Below s' i n)
      (audit k type amount options) s := by
  unfold audit getFund
  simp only [Prog.perform_bind, Prog.call_bind]
  refine safe_rows_stmt (fun s₁ _ _ _ k' hk' => by cases hk') fun s₁ hr₁ hinv₁ => ?_
  have h₁ := h.of_holding hr₁ hinv₁.owned
  have hreply : fundSql.reply (.findFund k) (s₁.view fundSql i) = none := by
    have hnot : ¬ (fundRows.obs k (s₁.view fundSql i)).fund.isSome := by
      rw [(hinv₁.good_view h₁ k).same.isSome, hnone]
      simp
    exact Option.not_isSome_iff_eq_none.mp hnot
  rw [hreply]
  exact ⟨⟨_, rfl⟩, h₁.afterStmt fun w hw => (by cases hw),
    (hbelow.of_holding hr₁).afterStmt fun _ k' hk' => by cases hk'⟩

theorem FundPolicy.Good.recorded {v : FundView} {f : InsuranceFund} (h : π.Good k v)
    (hf : v.fund = some f) (hid : f.id = k) (hamount : π.amountOk amount)
    (hle : type = .payout → amount ≤ f.balance) :
    π.Good k ⟨some (f.moved type amount),
      v.transactions ++ [auditRow (f.moved type amount) type amount options], v.tiers⟩ := by
  subst hid
  refine ⟨⟨h.same.tiers, ?_, ?_⟩, π.recorded options h.good hf hamount hle⟩
  · rw [← h.same.isSome, hf]
    rfl
  · rintro _ ⟨⟩
    exact h.same.same f hf

/-- The balance change, followed by the audit. -/
theorem safe_change {c : Stmt} {f : InsuranceFund} {s₁ : FundServer ι}
    (hinv : RowsInv fundRows π.Good s₁) (h : Settled fundRows π.Good s₁ i)
    (hfind : (s₁.view fundSql i).funds.find k = some f)
    (hc : c.Updates (s₁.view fundSql i) (f.moved type amount)) (hamount : π.amountOk amount)
    (hle : type = .payout → amount ≤ f.balance) (hbelow : π.Below s₁ i (π.rank k)) :
    StmtSafe π i (fun o s' => (∃ a, o = .ok a) ∧ Settled fundRows π.Good s' i ∧
      π.Below s' i (π.rank k + 1)) (audit k type amount options) (s₁.afterStmt fundSql i c) := by
  have hid : (f.moved type amount).id = k := show f.id = k from Table.key_of_find hfind
  have hgood := hinv.good_view h k
  have hwrites : fundSql.writes c (s₁.view fundSql i) = [.fund (f.moved type amount)] := hc.writes
  have hlocks : c.locks (s₁.view fundSql i) = [k] := hid ▸ hc.locks
  have hw : ∀ w ∈ fundSql.writes c (s₁.view fundSql i), fundSql.target w = some k := by
    intro w hw
    rw [hwrites, List.mem_singleton] at hw
    subst hw
    exact congrArg some hid
  have hmem : k ∈ fundSql.locks c (s₁.view fundSql i) := by
    rw [show fundSql.locks c (s₁.view fundSql i) = _ from hlocks]
    exact List.mem_singleton_self k
  -- the fund is out of step with its audit rows until the audit is stored
  have hbut := settledBut_afterStmt (O := fundRows) (fun k' _ hk' => h k' hk') (.inr hmem) hw
  rw [hwrites, obs_fund hid] at hbut
  refine safe_audit (f := f.moved type amount) hid hbut ?_ ?_
  · exact hgood.recorded hfind hid hamount hle
  · refine (hbelow.mono (Nat.le_succ _)).afterStmt fun _ k' hk' => ?_
    rw [hlocks, List.mem_singleton] at hk'
    subst hk'
    exact Nat.lt_succ_self _

/-- A statement that changes nothing leaves the transaction settled, with the rows it holds. -/
theorem settled_of_skips {c : Stmt} {n : ℕ} (hc : c.Skips (s.view fundSql i))
    (h : Settled fundRows π.Good s i) (hbelow : π.Below s i n) :
    Settled fundRows π.Good (s.afterStmt fundSql i c) i ∧
      π.Below (s.afterStmt fundSql i c) i n := by
  constructor
  · refine h.afterStmt fun w hw => ?_
    rw [show fundSql.writes c (s.view fundSql i) = [] from hc.writes] at hw
    cases hw
  · refine hbelow.afterStmt fun _ k' hk' => ?_
    rw [hc.locks] at hk'
    cases hk'

omit [DecidableEq ι] in
/-- A statement that locks the next fund at most locks in order. -/
theorem locksInOrder_of_change {c : Stmt} {s₁ : FundServer ι} (hbelow : π.Below s i (π.rank k))
    (hr : Holding fundRows i s s₁)
    (hc : c.Skips (s₁.view fundSql i) ∨ ∃ f, f.id = k ∧ c.Updates (s₁.view fundSql i) f) :
    π.LocksInOrder i c s₁ := by
  intro ho k' hk'
  rcases hc with hskips | ⟨f, rfl, hupdates⟩
  · rw [hskips.locks] at hk'
    cases hk'
  · rw [hupdates.locks, List.mem_singleton] at hk'
    subst hk'
    exact .inr fun l hl => hbelow.of_holding hr ho l hl

/-- **`executeRecordTransaction`** keeps every policy, and leaves the transaction settled. It locks
the fund, unless it fails. -/
theorem safe_executeRecordTransaction (h : Settled fundRows π.Good s i)
    (hamount : π.amountOk amount) (hbelow : π.Below s i (π.rank k)) :
    StmtSafe π i (fun o s' => Settled fundRows π.Good s' i ∧ π.Below s' i (π.rank k + 1) ∧
      ((∃ e, o = .error e) → π.Below s' i (π.rank k)))
      (executeRecordTransaction k type amount options) s := by
  unfold executeRecordTransaction
  by_cases htype : type = .payout
  · simp only [if_pos htype, Prog.perform_bind]
    refine safe_rows_stmt (fun s₁ hr _ => locksInOrder_of_change hbelow hr ?_) fun s₁ hr hinv => ?_
    · -- the row that the UPDATE locks is the one of the fund
      exact (debit_cases k amount _).imp And.left fun ⟨f, hfind, _, hupdates, _⟩ =>
        ⟨{ f with balance := f.balance - amount }, show f.id = k from Table.key_of_find hfind, hupdates⟩
    · have h₁ := h.of_holding hr hinv.owned
      have hbelow₁ := hbelow.of_holding hr
      rcases debit_cases k amount (s₁.view fundSql i) with
        ⟨hskips, hreply, -⟩ | ⟨f, hfind, hle, hupdates, hreply⟩
      · -- refused: the fund is not locked, and the next attempt may lock it
        obtain ⟨h₂, hbelow₂⟩ := settled_of_skips hskips h₁ hbelow₁
        rw [show fundSql.reply (.debit k amount) (s₁.view fundSql i) = false from hreply]
        exact ⟨h₂, hbelow₂.mono (Nat.le_succ _), fun _ => hbelow₂⟩
      · have hmoved : (Stmt.debit k amount).Updates (s₁.view fundSql i) (f.moved type amount) := by
          simpa [InsuranceFund.moved, htype] using hupdates
        rw [show fundSql.reply (.debit k amount) (s₁.view fundSql i) = true from hreply]
        refine Protocol.safe_mono (fun o s' ho => ?_)
          (safe_change hinv h₁ hfind hmoved hamount (fun _ => hle) hbelow₁)
        obtain ⟨⟨a, rfl⟩, hsettled, hbelow'⟩ := ho
        exact ⟨hsettled, hbelow', by rintro ⟨e, ⟨⟩⟩⟩
  · simp only [if_neg htype, Prog.perform_bind]
    refine safe_rows_stmt (fun s₁ hr _ => locksInOrder_of_change hbelow hr ?_) fun s₁ hr hinv => ?_
    · exact (credit_cases k amount _).imp And.left fun ⟨f, hfind, hupdates⟩ =>
        ⟨{ f with balance := f.balance + amount }, show f.id = k from Table.key_of_find hfind, hupdates⟩
    · have h₁ := h.of_holding hr hinv.owned
      have hbelow₁ := hbelow.of_holding hr
      rcases credit_cases k amount (s₁.view fundSql i) with ⟨hskips, hfind⟩ | ⟨f, hfind, hupdates⟩
      · -- there is no such fund, now or later: the audit fails
        obtain ⟨h₂, hbelow₂⟩ := settled_of_skips hskips h₁ hbelow₁
        have hnone : π.home.funds.find k = none := by
          have hsome := (hinv.good_view h₁ k).same.isSome
          rw [show (fundRows.obs k (s₁.view fundSql i)).fund = none from hfind] at hsome
          exact Option.not_isSome_iff_eq_none.mp (by simp [← hsome])
        refine Protocol.safe_mono (fun o s' ho => ?_) (safe_audit_missing h₂ hnone hbelow₂)
        obtain ⟨-, hsettled, hbelow'⟩ := ho
        exact ⟨hsettled, hbelow'.mono (Nat.le_succ _), fun _ => hbelow'⟩
      · have hmoved : (Stmt.credit k amount).Updates (s₁.view fundSql i) (f.moved type amount) := by
          simpa [InsuranceFund.moved, htype] using hupdates
        refine Protocol.safe_mono (fun o s' ho => ?_) (safe_change hinv h₁ hfind hmoved hamount
          (fun hpayout => absurd hpayout htype) hbelow₁)
        obtain ⟨⟨a, rfl⟩, hsettled, hbelow'⟩ := ho
        exact ⟨hsettled, hbelow', by rintro ⟨e, ⟨⟩⟩⟩

end Recording

/-! ## Covering a shortfall -/

section Covering

variable {options : InsuranceTransactionOptions}

theorem FundPolicy.coverOk_min {a b : ℚ} (ha : π.coverOk a) (hb : π.coverOk b) : π.coverOk (min a b) := by
  rcases min_choice a b with e | e <;> rwa [e]

theorem safe_getFund {n k : ℕ} (h : Settled fundRows π.Good s i) (hbelow : π.Below s i n) :
    StmtSafe π i (fun o s' => Settled fundRows π.Good s' i ∧ π.Below s' i n ∧ ∀ f, o = .ok f → π.coverOk f.balance)
      (getFund k) s := by
  unfold getFund
  rw [Prog.perform_bind]
  refine safe_rows_stmt (fun s₁ _ _ _ k' hk' => by cases hk') fun s₁ hr hinv => ?_
  have h₁ := (h.of_holding hr hinv.owned).afterStmt (c := .findFund k) fun w hw => by cases hw
  have hbelow₁ := (hbelow.of_holding hr).afterStmt (c := .findFund k) fun _ k' hk' => by cases hk'
  cases hfind : fundSql.reply (.findFund k) (s₁.view fundSql i) with
  | none => exact ⟨h₁, hbelow₁, fun _ he => by cases he⟩
  | some f =>
    obtain rfl : f.id = k := Table.key_of_find hfind
    have hgood := hinv.good_view (h.of_holding hr hinv.owned) f.id
    refine ⟨h₁, hbelow₁, fun _ he => ?_⟩
    cases he
    exact π.coverOk_balance hgood.good hfind

/-- The debit attempts for one fund lock that fund alone. -/
theorem safe_attemptPayout {k : ℕ} {remaining : ℚ} (hremaining : 0 ≤ remaining) (hok : π.coverOk remaining)
    {attempts attempt : ℕ} {coverAmount : ℚ} (hcover : 0 ≤ coverAmount) (hokCover : π.coverOk coverAmount)
    (h : Settled fundRows π.Good s i) (hbelow : π.Below s i (π.rank k)) :
    StmtSafe π i (fun o s' => Settled fundRows π.Good s' i ∧ π.Below s' i (π.rank k + 1) ∧
        ∀ a, o = .ok (some a) → π.coverOk a)
      (attemptPayout k remaining options attempts attempt coverAmount) s := by
  have hnone : ∀ {s' : FundServer ι}, Settled fundRows π.Good s' i → π.Below s' i (π.rank k) →
      StmtSafe π i (fun o s' => Settled fundRows π.Good s' i ∧ π.Below s' i (π.rank k + 1) ∧
        ∀ a, o = .ok (some a) → π.coverOk a) (pure none) s' :=
    fun h hbelow => ⟨h, hbelow.mono (Nat.le_succ _), fun _ he => by cases he⟩
  induction attempts generalizing attempt coverAmount s with
  | zero => exact hnone h hbelow
  | succ attempts ih =>
    -- after a refused debit
    have hretry : ∀ s', Settled fundRows π.Good s' i → π.Below s' i (π.rank k) →
        StmtSafe π i (fun o s' => Settled fundRows π.Good s' i ∧ π.Below s' i (π.rank k + 1) ∧
            ∀ a, o = .ok (some a) → π.coverOk a)
          (if 0 < attempt then pure none else getFund k >>= fun fresh =>
            if fresh.balance ≤ 0 then pure none
            else attemptPayout k remaining options attempts (attempt + 1)
              (min fresh.balance remaining)) s' := by
      intro s' h' hbelow'
      split
      · exact hnone h' hbelow'
      · refine Protocol.safe_bind (Protocol.safe_mono (fun o s₁ ho => ?_) (safe_getFund h' hbelow'))
        obtain ⟨h₁, hbelow₁, hfresh⟩ := ho
        cases o with
        | error e => exact ⟨h₁, hbelow₁.mono (Nat.le_succ _), fun _ he => by cases he⟩
        | ok fresh =>
          show StmtSafe π i _ (if fresh.balance ≤ 0 then _ else _) s₁
          split
          · exact hnone h₁ hbelow₁
          · next hpos =>
            exact ih (le_min (not_le.mp hpos).le hremaining) (π.coverOk_min (hfresh fresh rfl) hok) h₁ hbelow₁
    simp only [attemptPayout]
    refine Protocol.safe_bind (Protocol.safe_tryCatch ?_)
    rw [map_eq_pure_bind]
    refine Protocol.safe_bind (Protocol.safe_mono (fun o s' ho => ?_)
      (safe_executeRecordTransaction h (π.amountOk_of_cover hcover hokCover) hbelow))
    obtain ⟨h', hbelow', hfailed⟩ := ho
    cases o with
    | ok r =>
      refine ⟨h', hbelow', fun a he => ?_⟩
      cases he
      exact hokCover
    | error e =>
      cases e with
      | badRequest message => exact hretry s' h' (hfailed ⟨_, rfl⟩)
      | notFound message => exact ⟨h', hbelow', fun _ he => by cases he⟩
      | error message => exact ⟨h', hbelow', fun _ he => by cases he⟩

variable {fundsByTier : List (FundTier × InsuranceFund)} {tiers₀ : List FundTier}

/-- The tier walk locks the funds in the order of the tiers. -/
theorem safe_coverLoop (hnodup : tiers₀.Nodup)
    (hfunds : π.ordered → ∀ p ∈ fundsByTier, π.rank p.2.id = tiers₀.idxOf p.1)
    (hbalances : ∀ p ∈ fundsByTier, π.coverOk p.2.balance)
    (done : List FundTier) {tiers : List FundTier} (htiers : tiers₀ = done ++ tiers) {c : Coverage}
    (hok : π.coverOk c.remaining) (h : Settled fundRows π.Good s i) (hbelow : π.Below s i done.length) :
    StmtSafe π i (fun _ s' => Settled fundRows π.Good s' i)
      (coverLoop fundsByTier options tiers c) s := by
  induction tiers generalizing done c s with
  | nil => exact h
  | cons tier tiers ih =>
    have htiers' : tiers₀ = (done ++ [tier]) ++ tiers := by simp [htiers]
    have hlength : (done ++ [tier]).length = done.length + 1 := by simp
    have hskip : ∀ {s c}, π.coverOk c.remaining → Settled fundRows π.Good s i → π.Below s i (done.length + 1) →
        StmtSafe π i (fun _ s' => Settled fundRows π.Good s' i)
          (coverLoop fundsByTier options tiers c) s :=
      fun hok h hbelow => ih (done ++ [tier]) htiers' hok h (hlength ▸ hbelow)
    simp only [coverLoop]
    split
    · exact h
    · next hpos =>
      cases hfind : fundsByTier.find? (·.1 = tier) with
      | none => exact hskip hok h (hbelow.mono (Nat.le_succ _))
      | some p =>
        obtain ⟨tier', fund⟩ := p
        obtain rfl : tier' = tier := by simpa using List.find?_some hfind
        show StmtSafe π i _ (if fund.balance ≤ 0 then _ else _) s
        split
        · exact hskip hok h (hbelow.mono (Nat.le_succ _))
        · next hbalance =>
          -- the fund is the next one in the order of the tiers
          have hrank : π.ordered → π.rank fund.id = done.length := by
            intro ho
            rw [hfunds ho _ (List.mem_of_find?_eq_some hfind), htiers]
            have hnot : tier' ∉ done := by
              rw [htiers, List.nodup_append] at hnodup
              exact fun hmem => hnodup.2.2 tier' hmem tier' List.mem_cons_self rfl
            rw [List.idxOf_append_of_notMem hnot, List.idxOf_cons_self, Nat.add_zero]
          have hremaining : 0 ≤ c.remaining := (not_le.mp hpos).le
          refine Protocol.safe_bind (Protocol.safe_mono (fun o s' ho => ?_)
            (safe_attemptPayout hremaining hok (le_min (not_le.mp hbalance).le hremaining)
              (π.coverOk_min (hbalances _ (List.mem_of_find?_eq_some hfind)) hok) h
              fun ho => (hrank ho).symm ▸ hbelow ho))
          obtain ⟨h', hbelow', hpaid⟩ := ho
          cases o with
          | error e => exact h'
          | ok paid =>
            have hbelow₁ : π.Below s' i (done.length + 1) := fun ho => hrank ho ▸ hbelow' ho
            cases paid with
            | none => exact hskip hok h' hbelow₁
            | some coverAmount => exact hskip (π.coverOk_sub hok (hpaid _ rfl)) h' hbelow₁

/-- **The transaction of `coverShortfall`** leaves the transaction settled. -/
theorem safe_coverTransaction {userId : ℕ} {shortfallAmount : ℚ} {positionId : Option String}
    (hnodup : tiers₀.Nodup)
    (hfunds : π.ordered → ∀ p ∈ fundsByTier, π.rank p.2.id = tiers₀.idxOf p.1)
    (hbalances : ∀ p ∈ fundsByTier, π.coverOk p.2.balance) (hok : π.coverOk shortfallAmount) (h : s.Clear i) :
    StmtSafe π i (fun _ s' => Settled fundRows π.Good s' i)
      (coverTransaction userId shortfallAmount positionId fundsByTier tiers₀) s := by
  unfold coverTransaction
  refine Protocol.safe_bind (Protocol.safe_mono (fun o s' ho => ?_)
    (safe_coverLoop hnodup hfunds hbalances [] rfl hok (settled_of_clear h) (below_of_clear h _)))
  cases o with
  | error e => exact ho
  | ok c =>
    refine safe_rows_stmt (fun s₁ _ _ _ k' hk' => by cases hk') fun s₁ hr hinv => ?_
    refine (ho.of_holding hr hinv.owned).afterStmt fun w hw => ?_
    obtain rfl : w = .liquidation (c.result userId shortfallAmount positionId).liquidationEvent := by
      simpa [fundSql, Stmt.writes] using hw
    rfl

end Covering

/-! ## Sessions -/

/-- A session keeps the policy when its saves are admitted, and ends in `Q`. -/
abbrev SessionSafe (π : FundPolicy) {α : Type} (i : ι)
    (Q : Except ProtectionError α → FundServer ι → Prop) (p : ProtectionSession α)
    (s : FundServer ι) : Prop :=
  (π.protocol ι).Safe ((fundSql.machine Outcome ι).restrict π.FreshSave) i Q p s

/-- The session ends with no transaction open, and its result meets `Q`. -/
abbrev Ends {α : Type} (i : ι) (Q : α → Prop) (o : Except ProtectionError α) (s : FundServer ι) :
    Prop :=
  s.Clear i ∧ ∀ a, o = .ok a → Q a

omit [DecidableEq ι] in
theorem ends_ok {α : Type} {Q : α → Prop} {a : α} (h : s.Clear i) (ha : Q a) :
    Ends i Q (.ok a) s := by
  refine ⟨h, fun a' he => ?_⟩
  cases he
  exact ha

omit [DecidableEq ι] in
theorem ends_error {α : Type} {Q : α → Prop} {e : ProtectionError} (h : s.Clear i) :
    Ends i Q (.error e) s :=
  ⟨h, fun _ he => by cases he⟩

theorem SessionSafe.bind {α γ : Type} {Q : α → Prop} {Q' : γ → Prop} {p : ProtectionSession α}
    {f : α → ProtectionSession γ} (hp : SessionSafe π i (Ends i Q) p s)
    (hf : ∀ a (s' : FundServer ι), s'.Clear i → Q a → SessionSafe π i (Ends i Q') (f a) s') :
    SessionSafe π i (Ends i Q') (p >>= f) s := by
  refine Protocol.safe_bind (Protocol.safe_mono (fun o s' ho => ?_) hp)
  cases o with
  | error e => exact ⟨ho.1, fun _ he => by cases he⟩
  | ok a => exact hf a s' ho.1 (ho.2 a rfl)

theorem safe_read {c : Stmt} {Q : c.Reply → Prop} (hc : ∀ d, c.writes d = []) (h : s.Clear i)
    (hQ : ∀ s₁ : FundServer ι, RowsInv fundRows π.Good s₁ → Q (c.reply s₁.committed)) :
    SessionSafe π i (Ends i Q) (bare c) s := by
  refine safe_rows_auto h fun s₁ hinv _ => ⟨fun k => ?_, hQ s₁ hinv⟩
  rw [show fundSql.writes c s₁.committed = [] from hc _]
  exact hinv.committed k

theorem FundPolicy.Good.refreshed {k : ℕ} {v v' : FundView} {f g : InsuranceFund}
    (hv : π.Good k v) (hf : v.fund = some f) (hv' : π.Good k v') (hg : v'.fund = some g)
    (hid : f.id = k) (hadmits : π.admits g f.refreshed) :
    π.Good k { v' with fund := some f.refreshed } := by
  subst hid
  refine ⟨⟨hv'.same.tiers, ?_, ?_⟩, π.refreshed hv.good hf hv'.good hg hadmits⟩
  · rw [← hv'.same.isSome, hg]
    rfl
  · rintro _ ⟨⟩
    exact hv.same.same f hf

/-- The save of a health refresh, where it is admitted. -/
theorem safe_saveFund {f : InsuranceFund} {v : FundView} (hv : π.Good f.id v) (hf : v.fund = some f)
    (h : s.Clear i) : SessionSafe π i (Ends i fun _ => True) (bare (.saveFund f.refreshed)) s := by
  refine safe_rows_auto h fun s₁ hinv hfresh => ⟨fun k => ?_, trivial⟩
  have hcommitted := hinv.committed k
  by_cases hk : k = f.id
  · subst hk
    -- the fund is still stored, and the save is admitted over what it is now
    obtain ⟨g, hg⟩ : ∃ g, (fundRows.obs f.id s₁.committed).fund = some g := by
      rw [← Option.isSome_iff_exists, hcommitted.same.isSome, ← hv.same.isSome, hf]
      rfl
    have hgood := hv.refreshed hf hcommitted hg rfl (hfresh g hg)
    rw [show fundSql.writes (.saveFund f.refreshed) s₁.committed = [.fund f.refreshed] from rfl,
      obs_fund (show f.refreshed.id = f.id from rfl)]
    exact hgood
  · rw [fundRows.frame_applyAll fun w hw ht => hk ?_]
    · exact hcommitted
    · obtain rfl : w = .fund f.refreshed := by simpa [fundSql, Stmt.writes] using hw
      exact (Option.some.inj ht).symm

/-- `updateFundHealth` keeps the policy, since its save is admitted. -/
theorem safe_updateFundHealth {k : ℕ} (h : s.Clear i) :
    SessionSafe π i (Ends i fun _ => True) (updateFundHealth k) s := by
  have hread : SessionSafe π i (Ends i fun r => ∀ f, r = some f →
      ∃ v, π.Good f.id v ∧ v.fund = some f) (bare (.findFund k)) s := by
    refine safe_read (fun _ => rfl) h fun s₁ hinv f hf => ?_
    obtain rfl : f.id = k := Table.key_of_find hf
    exact ⟨_, hinv.committed f.id, hf⟩
  refine SessionSafe.bind hread fun found s' hclear hfound => ?_
  cases found with
  | none => exact ends_error hclear
  | some f =>
    obtain ⟨v, hv, hf⟩ := hfound f rfl
    exact SessionSafe.bind (safe_saveFund hv hf hclear) fun _ _ hclear' _ =>
      ends_ok hclear' trivial

/-- The fund ranks with the tier, and its balance is a number of coverages. -/
def FundPolicy.Found (π : FundPolicy) (asset : String) (tier : FundTier) (f : InsuranceFund) : Prop :=
  π.rank f.id = (π.order asset).idxOf tier ∧ π.coverOk f.balance

/-- `getFundsByTier` finds the fund that ranks with its tier. -/
theorem safe_getFundsByTier {tier : FundTier} {asset : String} (h : s.Clear i) :
    SessionSafe π i (Ends i (π.Found asset tier))
      (getFundsByTier tier asset) s := by
  have hfindTier : SessionSafe π i (Ends i fun r => ∀ t, r = some t →
      t.tier = tier ∧ t ∈ π.home.tiers.rows) (bare (.findTier tier)) s := by
    refine safe_read (fun _ => rfl) h fun s₁ hinv t ht => ⟨by simpa using List.find?_some ht, ?_⟩
    rw [← (hinv.committed 0).same.tiers]
    exact List.mem_of_find?_eq_some ht
  refine SessionSafe.bind hfindTier fun found s' hclear hfound => ?_
  cases found with
  | none => exact ends_error hclear
  | some t =>
    obtain ⟨rfl, ht⟩ := hfound t rfl
    have hfindFund : SessionSafe π i (Ends i fun r => ∀ f, r = some f → π.Found asset t.tier f)
        (bare (.findFundOfTier t.id asset)) s' := by
      refine safe_read (fun _ => rfl) hclear fun s₁ hinv f hf => ?_
      obtain ⟨htierId, rfl⟩ : f.tierId = t.id ∧ f.asset = asset := by
        simpa using List.find?_some hf
      have hfund : s₁.committed.funds.find f.id = some f :=
        Table.find_of_mem (List.mem_of_find?_eq_some hf)
      have hgood := hinv.committed f.id
      exact ⟨rank_of_found hgood hfund ht htierId, π.coverOk_balance hgood.good hfund⟩
    refine SessionSafe.bind hfindFund fun found s'' hclear' hfound' => ?_
    cases found with
    | none => exact ends_error hclear'
    | some f => exact ends_ok hclear' (hfound' f rfl)

/-- The read for one tier, with a missing fund skipped. -/
theorem safe_tryFund {tier : FundTier} {asset : String} (h : s.Clear i) :
    SessionSafe π i (Ends i fun found => ∀ f, found = some f → π.Found asset tier f)
      (tryCatch (some <$> getFundsByTier tier asset) fun
        | .notFound _ => return none
        | err => throw err) s := by
  refine Protocol.safe_tryCatch ?_
  rw [map_eq_pure_bind]
  refine Protocol.safe_bind (Protocol.safe_mono (fun o s' ho => ?_) (safe_getFundsByTier h))
  obtain ⟨hclear, hok⟩ := ho
  cases o with
  | ok fund =>
    refine ends_ok hclear fun f hf => ?_
    cases hf
    exact hok fund rfl
  | error e =>
    cases e with
    | notFound message => exact ends_ok hclear fun f hf => by cases hf
    | badRequest message => exact ends_error hclear
    | error message => exact ends_error hclear

/-- The advisory reads find funds that rank with their tiers. -/
theorem safe_findFunds {asset : String} {tiers : List FundTier} (h : s.Clear i) :
    SessionSafe π i (Ends i fun l => ∀ p ∈ l, π.Found asset p.1 p.2)
      (findFunds asset tiers) s := by
  induction tiers generalizing s with
  | nil => exact ends_ok h fun p hp => by cases hp
  | cons tier tiers ih =>
    simp only [findFunds]
    refine SessionSafe.bind (safe_tryFund h) fun found s' hclear hfound => ?_
    refine SessionSafe.bind (ih hclear) fun fundsByTier s'' hclear' hfunds => ?_
    cases found with
    | none => exact ends_ok hclear' hfunds
    | some fund =>
      refine ends_ok hclear' fun p hp => ?_
      rcases List.mem_cons.mp hp with rfl | hp
      · exact hfound fund rfl
      · exact hfunds p hp

/-- A transaction that leaves itself settled when it succeeds. -/
theorem safe_settled {α : Type} {res : α → Outcome} {p : Tx α}
    (hp : StmtSafe π i (fun _ s' => Settled fundRows π.Good s' i) p s) :
    SessionSafe π i (Ends i fun _ => True) (transaction res p) s :=
  Protocol.Safe.restrict (safe_rows_transaction
    (Protocol.safe_mono (fun _ _ ho _ _ => ⟨ho, trivial⟩) hp))

/-- `recordTransaction` keeps the policy. -/
theorem safe_recordTransaction {k : ℕ} {type : InsuranceTxType} {amount : ℚ}
    {options : InsuranceTransactionOptions} (hamount : π.amountOk amount) (h : s.Clear i) :
    SessionSafe π i (Ends i fun _ => True) (recordTransaction k type amount options) s := by
  have hsettled : StmtSafe π i (fun _ s' => Settled fundRows π.Good s' i)
      (executeRecordTransaction k type amount options) s :=
    Protocol.safe_mono (fun _ _ ho => ho.1)
      (safe_executeRecordTransaction (settled_of_clear h) hamount (below_of_clear h _))
  exact SessionSafe.bind (safe_settled hsettled) fun _ _ hclear _ =>
    SessionSafe.bind (safe_updateFundHealth hclear) fun _ _ hclear' _ =>
      ends_ok hclear' trivial

theorem safe_refreshAll {fundsUsed : List FundUsed} (h : s.Clear i) :
    SessionSafe π i (Ends i fun _ => True) (refreshAll fundsUsed) s := by
  induction fundsUsed generalizing s with
  | nil => exact ends_ok h trivial
  | cons used fundsUsed ih =>
    exact SessionSafe.bind (safe_updateFundHealth h) fun _ _ hclear _ => ih hclear

theorem nodup_tiersToTry (preferredTier : Option FundTier) : (tiersToTry preferredTier).Nodup := by
  cases preferredTier with
  | none => decide
  | some tier => cases tier <;> decide

/-- `coverShortfall` keeps the policy. When the policy is ordered, its order is the one in which
the tiers are walked. -/
theorem safe_coverShortfall {userId : ℕ} {shortfallAmount : ℚ} {positionId : Option String}
    {asset : String} {preferredTier : Option FundTier}
    (hok : π.coverOk shortfallAmount)
    (horder : π.ordered → 0 < shortfallAmount → π.order asset = tiersToTry preferredTier)
    (h : s.Clear i) :
    SessionSafe π i (Ends i fun _ => True)
      (coverShortfall userId shortfallAmount positionId asset preferredTier) s := by
  unfold coverShortfall
  split
  · exact ends_error h
  · next hpos =>
    refine SessionSafe.bind (safe_findFunds h) fun fundsByTier s' hclear hranks => ?_
    have hfunds : π.ordered → ∀ p ∈ fundsByTier,
        π.rank p.2.id = (tiersToTry preferredTier).idxOf p.1 := by
      intro ho
      rw [← horder ho (not_le.mp hpos)]
      exact fun p hp => (hranks p hp).1
    exact SessionSafe.bind
      (safe_settled (safe_coverTransaction (nodup_tiersToTry preferredTier) hfunds (fun p hp => (hranks p hp).2) hok hclear))
      fun outcome _ hclear' _ => SessionSafe.bind (safe_refreshAll hclear') fun _ _ hclear'' _ =>
        ends_ok hclear'' trivial

/-! ## Calls -/

/-- The policy is about the call: a recorded amount is allowed, a shortfall is a number of
coverages, and the tiers of a positive one are walked in order. -/
def FundPolicy.Allows (π : FundPolicy) : Call → Prop
  | .record _ _ amount _ => π.amountOk amount
  | .cover _ shortfallAmount _ asset preferredTier =>
    π.coverOk shortfallAmount ∧ (π.ordered → 0 < shortfallAmount → π.order asset = tiersToTry preferredTier)

/-- **Every call** keeps the policy. -/
theorem Call.safe {call : Call} (hcall : π.Allows call) (h : s.Clear i) :
    SessionSafe π i (Ends i fun _ => True) call.session s := by
  cases call with
  | record fundId type amount options =>
    exact SessionSafe.bind (safe_recordTransaction hcall h) fun _ _ hclear _ =>
      ends_ok hclear trivial
  | cover userId shortfallAmount positionId asset preferredTier =>
    exact SessionSafe.bind (safe_coverShortfall hcall.1 hcall.2 h) fun _ _ hclear _ =>
      ends_ok hclear trivial

omit [DecidableEq ι] in
/-- Every save is admitted by a policy that admits everything. -/
theorem FundPolicy.freshSave_of_admits (h : ∀ g f, π.admits g f) (i : ι)
    (cmd : Cmd Stmt Outcome) (s : FundServer ι) : π.FreshSave i cmd s := by
  unfold FundPolicy.FreshSave
  split
  · exact fun g _ => h g _
  · trivial

/-- **Any calls at the same time** keep the policy, under every schedule whose saves are
admitted. -/
theorem serving_safe {calls : ι → Call} {d₀ : ProtectionDb}
    (hgood : ∀ k, π.Good k (fundRows.obs k d₀)) (hcalls : ∀ i, π.Allows (calls i)) {is : List ι}
    {c : Serving ι} (hr : (serving calls d₀).run (fundSql.machine Outcome ι) is = some c)
    (ha : (serving calls d₀).Admitted (fundSql.machine Outcome ι) π.FreshSave is) :
    (π.protocol ι).AllSafe ((fundSql.machine Outcome ι).restrict π.FreshSave)
      (fun i => Ends i fun _ => True) c := by
  have hstart : (π.protocol ι).AllSafe ((fundSql.machine Outcome ι).restrict π.FreshSave)
      (fun i => Ends i fun _ => True) (serving calls d₀) :=
    ⟨rowsInv_idle hgood, fun i => Call.safe (hcalls i) (Server.clear_idle d₀)⟩
  exact Protocol.run_safe (fun _ _ _ _ h hr => ⟨h.1.of_keeps hr.1, h.2⟩) hstart
    (Config.run_restrict hr ha)

/-! ## Numbers held exactly -/

/-- The numbers that are added and stored are held exactly. -/
structure ProtectionDb.Exact (d : ProtectionDb) : Prop where
  funds : ∀ f ∈ d.funds.rows, Carried f.balance
  transactions : ∀ t ∈ d.transactions, Carried t.amount ∧ Carried t.balanceBefore ∧ Carried t.balanceAfter

/-- The amount of the call is held exactly. -/
def Call.Exact : Call → Prop
  | .record _ _ amount _ => Carried amount
  | .cover _ shortfallAmount _ _ _ => Carried shortfallAmount

/-- The numbers of a fund and its rows are held exactly. -/
structure FundView.Exact (v : FundView) : Prop where
  fund : ∀ f, v.fund = some f → Carried f.balance
  transactions : ∀ t ∈ v.transactions, Carried t.amount ∧ Carried t.balanceBefore ∧ Carried t.balanceAfter

theorem FundView.Exact.recorded {v : FundView} {f : InsuranceFund} (h : v.Exact) (hf : v.fund = some f)
    (type : InsuranceTxType) {amount : ℚ} (ha : Carried amount) (options : InsuranceTransactionOptions) :
    FundView.Exact ⟨some (f.moved type amount),
      v.transactions ++ [auditRow (f.moved type amount) type amount options], v.tiers⟩ := by
  have hbalance := h.fund f hf
  have hmoved : Carried (f.moved type amount).balance := by
    simp only [InsuranceFund.moved]
    split
    · exact hbalance.sub ha
    · exact hbalance.add ha
  refine ⟨fun f' hf' => by cases hf'; exact hmoved, fun t ht => ?_⟩
  rcases List.mem_append.mp ht with ht | ht
  · exact h.transactions t ht
  · obtain rfl := List.mem_singleton.mp ht
    refine ⟨ha, ?_, hmoved⟩
    simp only [auditRow]
    split
    · exact hmoved.add ha
    · exact hmoved.sub ha

/-- The policy of numbers held exactly. -/
def exactPolicy (d₀ : ProtectionDb) : FundPolicy where
  home := d₀
  good _ v := v.Exact
  amountOk := Carried
  coverOk := Carried
  admits _ _ := True
  ordered := False
  order _ := []
  amountOk_of_cover _ h := h
  coverOk_sub := Carried.sub
  coverOk_balance h hf := h.fund _ hf
  recorded options h hf ha _ := h.recorded hf _ ha options
  refreshed hread hf h _ _ := ⟨fun f' hf' => by cases hf'; exact (hread.fund _ hf :), h.transactions⟩

/-- **The numbers stay held exactly** in every run. -/
theorem exact_run {calls : ι → Call} {d₀ : ProtectionDb} (hd : d₀.Exact) (hcalls : ∀ i, (calls i).Exact) {is : List ι}
    {c : Serving ι} (hr : (serving calls d₀).run (fundSql.machine Outcome ι) is = some c) :
    c.shared.committed.Exact := by
  have hgood : ∀ k, (exactPolicy d₀).Good k (fundRows.obs k d₀) := fun k =>
    ⟨⟨rfl, rfl, fun f hf => ⟨f, hf, rfl, rfl⟩⟩, fun f hf => hd.funds f (Table.mem_of_find hf),
      fun t ht => hd.transactions t (List.mem_of_mem_filter ht)⟩
  have hallows : ∀ i, (exactPolicy d₀).Allows (calls i) := by
    intro i
    have hcall := hcalls i
    generalize calls i = call at hcall
    cases call with
    | record fundId type amount options => exact hcall
    | cover userId shortfallAmount positionId asset preferredTier => exact ⟨hcall, fun ho => ho.elim⟩
  have hadmitted := Config.admitted_of_forall (M := fundSql.machine Outcome ι)
    ((exactPolicy d₀).freshSave_of_admits fun _ _ => trivial) is (serving calls d₀)
  have hinv := (serving_safe hgood hallows hr hadmitted).1
  exact ⟨fun f hf => (hinv.committed f.id).good.fund f (Table.find_of_mem hf),
    fun t ht => (hinv.committed t.fundId).good.transactions t (List.mem_filter.mpr ⟨ht, by simp⟩)⟩

end Protection
