import PeerX.Foundations.Commits
import PeerX.Protection.Sessions
import Mathlib.Tactic.Linarith

/-!
# Protection: what a coverage commits

No balance is ever negative: a payout is debited only where the balance suffices, and a health
refresh saves a balance that was stored. What `coverShortfall` commits adds up: the amounts of the
funds used are those of the payout rows of the same transaction, on whichever attempt the debit
succeeded, and together with the rest they are the shortfall. The columns of the rows keep amounts
that are held exactly, and round others.
-/

namespace Protection

open Relational Concurrency Arithmetic

/-- The payout rows among some writes. -/
def payoutRows (ws : List Write) : List InsuranceTransaction :=
  ws.filterMap fun
    | .transaction t => if t.type = .payout then some t else none
    | _ => none

/-- The result of a coverage adds up, and so do the payout rows of its transaction. -/
structure AddsUp (shortfallAmount : ℚ) (ws : List Write) (result : CoverShortfallResult) : Prop where
  total : result.coveredAmount + result.remainingShortfall = shortfallAmount
  used : result.coveredAmount = (result.fundsUsed.map (·.amount)).sum
  paid : result.coveredAmount = ((payoutRows ws).map (·.amount)).sum
  rows : (payoutRows ws).map (fun t => (t.fundId, t.amount)) =
    result.fundsUsed.map fun u => (u.fundId, u.amount)
  nonneg : 0 ≤ result.remainingShortfall
  cascadePrevented : result.cascadePrevented ↔ result.remainingShortfall = 0
  status : result.liquidationEvent.status = "COVERED" ↔ result.remainingShortfall = 0
  tiers : (result.fundsUsed.map (·.tier)).Nodup

@[simp] theorem payoutRows_append (ws ws' : List Write) :
    payoutRows (ws ++ ws') = payoutRows ws ++ payoutRows ws' :=
  List.filterMap_append

/-- A statement that stores no audit row writes no payout row. -/
theorem payoutRows_writes {c : Stmt} (hc : ∀ t, c ≠ .insertTransaction t) (d : ProtectionDb) :
    payoutRows (c.writes d) = [] := by
  cases c with
  | insertTransaction t => exact absurd rfl (hc t)
  | debit id amount =>
    simp only [Stmt.writes]
    split <;> rfl
  | credit id amount =>
    simp only [Stmt.writes]
    split <;> rfl
  | findTier | findFundOfTier | findFund | insertLiquidation | saveFund => rfl

/-! ## The tier walk -/

section Walk

variable {ws : List Write} {k : ℕ} {amount : ℚ} {options : InsuranceTransactionOptions}

/-- How a payout ends: its row is stored behind `rows`, or it is refused and none is. -/
def PaidOut (k : ℕ) (amount : ℚ) (rows : List InsuranceTransaction) (ws : List Write) :
    Except ProtectionError (InsuranceFund × InsuranceTransaction) → Prop
  | .ok _ => ∃ t, payoutRows ws = rows ++ [t] ∧ t.fundId = k ∧ t.amount = amount
  | .error (.badRequest _) => payoutRows ws = rows
  | .error _ => True

/-- The audit of a payout stores the row of the payout. -/
theorem yields_audit : fundSql.Yields (PaidOut k amount (payoutRows ws)) ws
    (audit k .payout amount options) := by
  unfold audit getFund
  simp only [Prog.perform_bind, Prog.call_bind]
  refine ⟨trivial, fun d => ?_⟩
  cases hfund : fundSql.reply (.findFund k) d with
  | none => trivial
  | some f =>
    refine ⟨trivial, fun d' => ⟨auditRow f .payout amount options, ?_, ?_, rfl⟩⟩
    · rw [payoutRows_append, payoutRows_append]
      simp [fundSql, Stmt.writes, payoutRows, auditRow]
    · show f.id = k
      exact Table.key_of_find hfund

/-- A payout that succeeds stores its row, and one that is refused stores nothing. -/
theorem yields_executeRecordTransaction : fundSql.Yields (PaidOut k amount (payoutRows ws)) ws
    (executeRecordTransaction k .payout amount options) := by
  simp only [executeRecordTransaction, if_pos]
  refine Dialect.yields_perform fun d => ?_
  have hwrites : payoutRows (ws ++ fundSql.writes (.debit k amount) d) = payoutRows ws := by
    have hnil : payoutRows (fundSql.writes (.debit k amount) d) = [] :=
      payoutRows_writes (c := .debit k amount) (fun t ht => by cases ht) d
    rw [payoutRows_append, hnil, List.append_nil]
  cases fundSql.reply (.debit k amount) d with
  | false => exact hwrites
  | true =>
    rw [← hwrites]
    exact yields_audit

/-- How the debit attempts end: with the row of the attempt that succeeded, or with none. -/
def Attempted (k : ℕ) (remaining : ℚ) (rows : List InsuranceTransaction) (ws : List Write) :
    Except ProtectionError (Option ℚ) → Prop
  | .ok (some a) => a ≤ remaining ∧ ∃ t, payoutRows ws = rows ++ [t] ∧ t.fundId = k ∧ t.amount = a
  | .ok none => payoutRows ws = rows
  | .error _ => True

/-- The debit attempts store the row of the attempt that succeeded, and nothing else. -/
theorem yields_attemptPayout {remaining : ℚ} {attempts attempt : ℕ} {coverAmount : ℚ}
    (hcover : coverAmount ≤ remaining) :
    fundSql.Yields (Attempted k remaining (payoutRows ws)) ws
      (attemptPayout k remaining options attempts attempt coverAmount) := by
  induction attempts generalizing attempt coverAmount ws with
  | zero => rfl
  | succ attempts ih =>
    simp only [attemptPayout]
    refine Dialect.yields_bind (Dialect.yields_tryCatch ?_)
    rw [map_eq_pure_bind]
    refine Dialect.yields_bind (Dialect.issues_mono (fun ws₁ o ho => ?_)
      yields_executeRecordTransaction)
    rcases o with e | r
    · cases e with
      | notFound message => trivial
      | error message => trivial
      | badRequest message =>
        -- the debit was refused: nothing is stored so far
        have hrows : payoutRows ws₁ = payoutRows ws := ho
        rw [← hrows]
        show fundSql.Yields _ _ (if 0 < attempt then _ else _)
        split
        · rfl
        · unfold getFund
          simp only [Prog.perform_bind, Prog.call_bind]
          refine ⟨trivial, fun d => ?_⟩
          have hread : ws₁ ++ fundSql.writes (.findFund k) d = ws₁ := List.append_nil _
          rw [hread]
          cases fundSql.reply (.findFund k) d with
          | none => trivial
          | some fresh =>
            show fundSql.Yields _ _ (if fresh.balance ≤ 0 then _ else _)
            split
            · rfl
            · exact ih (min_le_right _ _)
    · exact ⟨hcover, ho⟩

/-- The invariant of the tier walk, with the tiers that are left. -/
structure Walked (shortfallAmount : ℚ) (ws : List Write) (tiers : List FundTier) (c : Coverage) :
    Prop where
  remaining : c.remaining = shortfallAmount - (c.fundsUsed.map (·.amount)).sum
  nonneg : 0 ≤ c.remaining
  rows : (payoutRows ws).map (fun t => (t.fundId, t.amount)) =
    c.fundsUsed.map fun u => (u.fundId, u.amount)
  tiers : (c.fundsUsed.map (·.tier) ++ tiers).Nodup

variable {shortfallAmount : ℚ} {c : Coverage} {tier : FundTier} {tiers : List FundTier}

theorem Walked.skip (h : Walked shortfallAmount ws (tier :: tiers) c) :
    Walked shortfallAmount ws tiers c :=
  ⟨h.remaining, h.nonneg, h.rows,
    h.tiers.sublist ((List.Sublist.refl _).append (List.sublist_cons_self tier tiers))⟩

theorem Walked.use (h : Walked shortfallAmount ws (tier :: tiers) c) {ws' : List Write} {a : ℚ}
    {t : InsuranceTransaction} (hle : a ≤ c.remaining)
    (hrows : payoutRows ws' = payoutRows ws ++ [t]) (hk : t.fundId = k) (ha : t.amount = a) :
    Walked shortfallAmount ws' tiers (c.use k tier a) := by
  refine ⟨?_, sub_nonneg.mpr hle, ?_, ?_⟩
  · simp only [Coverage.use, List.map_append, List.sum_append, h.remaining]
    simpa using sub_sub _ _ _
  · simp [Coverage.use, hrows, h.rows, hk, ha]
  · have htiers := h.tiers
    rw [List.append_cons] at htiers
    simpa [Coverage.use] using htiers

/-- The tier walk keeps its invariant, whatever the funds were read as. -/
theorem yields_coverLoop {fundsByTier : List (FundTier × InsuranceFund)}
    (h : Walked shortfallAmount ws tiers c) :
    fundSql.Yields (fun ws' o => ∀ c', o = .ok c' → Walked shortfallAmount ws' [] c') ws
      (coverLoop fundsByTier options tiers c) := by
  induction tiers generalizing ws c with
  | nil =>
    rintro c' ⟨⟩
    exact h
  | cons tier tiers ih =>
    simp only [coverLoop]
    split
    · rintro c' ⟨⟩
      exact ⟨h.remaining, h.nonneg, h.rows, by simpa using h.tiers.of_append_left⟩
    · next hpos =>
      cases fundsByTier.find? (·.1 = tier) with
      | none => exact ih h.skip
      | some p =>
        show fundSql.Yields _ _ (if p.2.balance ≤ 0 then _ else _)
        split
        · exact ih h.skip
        · refine Dialect.yields_bind (Dialect.issues_mono (fun ws₁ o ho => ?_)
            (yields_attemptPayout (min_le_right _ _)))
          rcases o with e | _ | a
          · rintro c' ⟨⟩
          · have hrows : payoutRows ws₁ = payoutRows ws := ho
            exact ih ⟨h.skip.remaining, h.skip.nonneg, hrows ▸ h.skip.rows, h.skip.tiers⟩
          · obtain ⟨hle, t, hrows, hk, ha⟩ := ho
            exact ih (h.use hle hrows hk ha)

/-- The transaction of `coverShortfall` adds up. -/
theorem yields_coverTransaction {userId : ℕ} {positionId : Option String}
    {fundsByTier : List (FundTier × InsuranceFund)} (hpos : 0 < shortfallAmount)
    (hnodup : tiers.Nodup) :
    fundSql.Yields (fun ws o => ∀ result, o = .ok result → AddsUp shortfallAmount ws result) []
      (coverTransaction userId shortfallAmount positionId fundsByTier tiers) := by
  unfold coverTransaction
  have hstart : Walked shortfallAmount [] tiers ⟨shortfallAmount, [], none⟩ :=
    ⟨by simp, hpos.le, rfl, hnodup⟩
  refine Dialect.yields_bind (Dialect.issues_mono (fun ws o ho => ?_) (yields_coverLoop hstart))
  rcases o with e | c
  · rintro result ⟨⟩
  · refine Dialect.yields_perform fun d => ?_
    rintro result ⟨⟩
    have h := ho c rfl
    -- the liquidation event is no payout
    have hrows : payoutRows (ws ++ fundSql.writes (.insertLiquidation
        (c.result userId shortfallAmount positionId).liquidationEvent) d) = payoutRows ws := by
      simp [fundSql, Stmt.writes, payoutRows]
    have hused : shortfallAmount - c.remaining = (c.fundsUsed.map (·.amount)).sum := by
      rw [h.remaining]
      exact sub_sub_cancel _ _
    have hzero : c.remaining ≤ 0 ↔ c.remaining = 0 := ⟨fun hle => le_antisymm hle h.nonneg, le_of_eq⟩
    refine ⟨?_, hused, ?_, ?_, h.nonneg, ?_, ?_, ?_⟩
    · exact sub_add_cancel _ _
    · rw [hrows]
      have hamounts := congrArg (List.map Prod.snd) h.rows
      simp only [List.map_map, Function.comp_def] at hamounts
      rw [hamounts]
      exact hused
    · rw [hrows]
      exact h.rows
    · simp [Coverage.result, hzero]
    · by_cases hr : c.remaining = 0 <;> simp [Coverage.result, hzero, hr]
    · simpa [Coverage.result] using h.tiers

end Walk

/-! ## Sessions -/

section Sessions

variable {ι : Type} [DecidableEq ι] {P : ι → List Write → Outcome → Prop} {i : ι}
  {s : FundServer ι} {α γ : Type}

/-- The commits of the session meet `P`. -/
abbrev CommitSafe (P : ι → List Write → Outcome → Prop) (i : ι) (p : ProtectionSession α)
    (s : FundServer ι) : Prop :=
  (commitProtocol P).Safe (fundSql.machine Outcome ι) i (fun _ s' => s'.pending i = []) p s

theorem CommitSafe.bind {p : ProtectionSession α} {f : α → ProtectionSession γ}
    (hp : CommitSafe P i p s)
    (hf : ∀ a (s' : FundServer ι), s'.pending i = [] → CommitSafe P i (f a) s') :
    CommitSafe P i (p >>= f) s := by
  refine Protocol.safe_bind (Protocol.safe_mono (fun o s' ho => ?_) hp)
  cases o with
  | error e => exact ho
  | ok a => exact hf a s' ho

theorem commitSafe_updateFundHealth {k : ℕ} (h : s.pending i = []) :
    CommitSafe P i (updateFundHealth k) s := by
  refine CommitSafe.bind (safe_commit_auto h) fun found s' h' => ?_
  cases found with
  | none => exact h'
  | some f => exact CommitSafe.bind (safe_commit_auto h') fun _ _ h'' => h''

theorem commitSafe_refreshAll {fundsUsed : List FundUsed} (h : s.pending i = []) :
    CommitSafe P i (refreshAll fundsUsed) s := by
  induction fundsUsed generalizing s with
  | nil => exact h
  | cons used fundsUsed ih =>
    exact CommitSafe.bind (commitSafe_updateFundHealth h) fun _ _ h' => ih h'

theorem commitSafe_getFundsByTier {tier : FundTier} {asset : String} (h : s.pending i = []) :
    CommitSafe P i (getFundsByTier tier asset) s := by
  refine CommitSafe.bind (safe_commit_auto h) fun found s' h' => ?_
  cases found with
  | none => exact h'
  | some t =>
    refine CommitSafe.bind (safe_commit_auto h') fun found s'' h'' => ?_
    cases found with
    | none => exact h''
    | some f => exact h''

theorem commitSafe_findFunds {asset : String} {tiers : List FundTier} (h : s.pending i = []) :
    CommitSafe P i (findFunds asset tiers) s := by
  induction tiers generalizing s with
  | nil => exact h
  | cons tier tiers ih =>
    simp only [findFunds]
    refine CommitSafe.bind (Protocol.safe_tryCatch ?_) fun found s' h' =>
      CommitSafe.bind (ih h') fun _ _ h'' => h''
    rw [map_eq_pure_bind]
    refine Protocol.safe_bind (Protocol.safe_mono (fun o s' ho => ?_) (commitSafe_getFundsByTier h))
    rcases o with e | f
    · cases e <;> exact ho
    · exact ho

/-- What a call commits: a coverage that adds up. -/
def Call.Commits : Call → List Write → Outcome → Prop
  | .record _ _ _ _, _, _ => True
  | .cover _ shortfallAmount _ _ _, ws, outcome =>
    ∃ result, outcome = .covered result ∧ AddsUp shortfallAmount ws result

/-- Every call commits what it should. -/
theorem Call.commitSafe {calls : ι → Call} (h : s.pending i = []) :
    CommitSafe (fun i => (calls i).Commits) i (calls i).session s := by
  cases hcall : calls i with
  | record fundId type amount options =>
    refine CommitSafe.bind (CommitSafe.bind (safe_commit_transaction h ?_) fun _ s' h' =>
      CommitSafe.bind (commitSafe_updateFundHealth h') fun _ _ h'' => h'') fun _ _ h' => h'
    refine Dialect.yields_of_forall fun ws o a _ => ?_
    rw [hcall]
    trivial
  | cover userId shortfallAmount positionId asset preferredTier =>
    refine CommitSafe.bind ?_ fun _ _ h' => h'
    unfold coverShortfall
    split
    · exact h
    · next hpos =>
      refine CommitSafe.bind (commitSafe_findFunds h) fun fundsByTier s₁ h₁ => ?_
      refine CommitSafe.bind (safe_commit_transaction h₁ ?_) fun outcome s₂ h₂ =>
        CommitSafe.bind (commitSafe_refreshAll h₂) fun _ _ h₃ => h₃
      refine Dialect.issues_mono (fun ws o ho result hresult => ?_)
        (yields_coverTransaction (not_le.mp hpos) (nodup_tiersToTry preferredTier))
      rw [hcall]
      exact ⟨result, rfl, ho result hresult⟩

end Sessions

/-! ## Every run -/

/-- The policy of the balances: no balance is negative. -/
def balancePolicy (d₀ : ProtectionDb) : FundPolicy where
  home := d₀
  good _ v := ∀ f, v.fund = some f → 0 ≤ f.balance
  amountOk amount := 0 ≤ amount
  coverOk _ := True
  admits _ _ := True
  ordered := False
  order _ := []
  amountOk_of_cover h _ := h
  coverOk_sub _ _ := trivial
  coverOk_balance _ _ := trivial
  recorded := by
    intro v f type amount options h hf hamount hle f' hf'
    cases hf'
    have hbalance := h f hf
    simp only [InsuranceFund.moved]
    split
    · next ht => exact sub_nonneg.mpr (hle ht)
    · exact add_nonneg hbalance hamount
  refreshed := by
    intro v v' f g h hf _ _ _ f' hf'
    cases hf'
    exact h f hf

variable {ι : Type} [DecidableEq ι]

/-- The payout rows that were committed stay. -/
theorem mem_transactions {calls : ι → Call} {d₀ : ProtectionDb} {is : List ι} {c : Serving ι}
    (hr : (serving calls d₀).run (fundSql.machine Outcome ι) is = some c) :
    ∀ r ∈ c.shared.history, ∀ t ∈ payoutRows r.writes, t ∈ c.shared.committed.transactions := by
  have hstays := run_stays (X := fundSql)
    (S := fun w (d : ProtectionDb) => ∀ t, w = .transaction t → t ∈ d.transactions)
    (fun w d t hw => by subst hw; exact List.mem_append_right _ (List.mem_singleton_self t))
    (fun w w' d h t hw => ?_) hr
  · intro r hmem t ht
    obtain ⟨w, hw, hpayout⟩ := List.mem_filterMap.mp ht
    refine hstays r hmem w hw t ?_
    cases w with
    | transaction t' =>
      simp only [Option.ite_none_right_eq_some, Option.some.injEq] at hpayout
      exact congrArg Write.transaction hpayout.2
    | fund f => cases hpayout
    | liquidation e => cases hpayout
  · cases w' with
    | transaction t' => exact List.mem_append_left _ (h t hw)
    | fund f => exact h t hw
    | liquidation e => exact h t hw

/-- **Every run of any calls with nonnegative amounts** that are held exactly: no balance is
negative in any state, and every coverage that was committed adds up, with payout rows whose columns
keep the amounts. -/
theorem coverages_add_up {calls : ι → Call} {d₀ : ProtectionDb} (hd : d₀.Exact) (hcalls : ∀ i, (calls i).Exact)
    (hbalances : ∀ f ∈ d₀.funds.rows, 0 ≤ f.balance)
    (hamounts : ∀ i fundId type amount options, calls i = .record fundId type amount options →
      0 ≤ amount) {is : List ι} {c : Serving ι}
    (hr : (serving calls d₀).run (fundSql.machine Outcome ι) is = some c) :
    (∀ f ∈ c.shared.committed.funds.rows, 0 ≤ f.balance) ∧
      ∀ r ∈ c.shared.history, (calls r.thread).Commits r.writes r.result ∧
        ∀ t ∈ payoutRows r.writes, Carried t.amount ∧ toColumn 8 t.amount = t.amount := by
  refine ⟨?_, fun r hmem => ⟨?_, fun t ht => ?_⟩⟩
  · have hgood : ∀ k, (balancePolicy d₀).Good k (fundRows.obs k d₀) :=
      fun k => ⟨⟨rfl, rfl, fun f hf => ⟨f, hf, rfl, rfl⟩⟩,
        fun f hf => hbalances f (Table.mem_of_find hf)⟩
    have hallows : ∀ i, (balancePolicy d₀).Allows (calls i) := by
      intro i
      cases hcall : calls i with
      | record fundId type amount options => exact hamounts i _ _ _ _ hcall
      | cover userId shortfallAmount positionId asset preferredTier => exact ⟨trivial, fun ho => ho.elim⟩
    have hadmitted := Config.admitted_of_forall (M := fundSql.machine Outcome ι)
      ((balancePolicy d₀).freshSave_of_admits fun _ _ => trivial) is (serving calls d₀)
    have hinv := (serving_safe hgood hallows hr hadmitted).1
    exact fun f hf => (hinv.committed f.id).good f (Table.find_of_mem hf)
  · have hsafe : (commitProtocol fun i => (calls i).Commits).AllSafe (fundSql.machine Outcome ι)
        (fun i _ s => s.pending i = []) (serving calls d₀) :=
      ⟨fun r hr => (by cases hr), fun i => Call.commitSafe rfl⟩
    have hkeeps : ∀ i (_ : Except ProtectionError Unit) (s s' : FundServer ι), s.pending i = [] →
        Server.Keeps i s s' → s'.pending i = [] := fun _ _ _ _ h hk => hk.pending.trans h
    exact (Protocol.run_safe hkeeps hsafe hr).1 r hmem
  · -- the row is still there, with an amount that is held exactly
    have hheld := ((exact_run hd hcalls hr).transactions t (mem_transactions hr r hmem t ht)).1
    exact ⟨hheld, hheld.toColumn⟩

/-- A shortfall of 30, and a payout of 15 from the first fund. -/
def coverAndPayout : Bool → Call
  | true => .cover 1 30 (some "pos-1") "USDT" none
  | false => .record 1 .payout 15 ⟨none, some 2⟩

theorem exact_twoFunds : (twoFunds 20 20).Exact := ⟨by simp [twoFunds], by simp [twoFunds]⟩

theorem exact_coverAndPayout (i : Bool) : (coverAndPayout i).Exact := by
  cases i <;> simp [coverAndPayout, Call.Exact]

/-- The payout commits after the coverage has read the funds, so its first debit is refused and the
second one takes what is left. -/
def payoutInBetween : List Bool :=
  List.replicate 6 true ++ List.replicate 6 false ++ List.replicate 14 true

theorem coverages_add_up_retried :
    ∃ c, (serving coverAndPayout (twoFunds 20 20)).run (fundSql.machine Outcome Bool)
        payoutInBetween = some c ∧
      (∀ f ∈ c.shared.committed.funds.rows, 0 ≤ f.balance) ∧
      ∀ r ∈ c.shared.history, (coverAndPayout r.thread).Commits r.writes r.result ∧
        ∀ t ∈ payoutRows r.writes, Carried t.amount ∧ toColumn 8 t.amount = t.amount := by
  have hrun : ((serving coverAndPayout (twoFunds 20 20)).run (fundSql.machine Outcome Bool)
      payoutInBetween).isSome := by
    decide +kernel
  obtain ⟨c, hc⟩ := Option.isSome_iff_exists.mp hrun
  refine ⟨c, hc, coverages_add_up exact_twoFunds exact_coverAndPayout (by decide +kernel) (fun i => ?_) hc⟩
  cases i with
  | true => rintro _ _ _ _ ⟨⟩
  | false =>
    rintro _ _ _ _ ⟨⟩
    decide +kernel

/-- The amounts of the coverage and of its payout rows, as their columns keep them. -/
def coveredAndPaid (r : Commit Unit Write Outcome) : Option (ℚ × List ℚ) :=
  match r.result with
  | .covered result => some (result.coveredAmount, (payoutRows r.writes).map fun t => toColumn 8 t.amount)
  | .recorded _ _ => none

/-- **A coverage of half of the last digit** that the column of the payout has: the row holds twice
as much. -/
theorem payout_rounded : ∃ c,
    (serving (fun _ => .cover 1 (5 / 10 ^ 9) none "USDT" none) (twoFunds 100 20)).run (fundSql.machine Outcome Unit)
      (List.replicate 13 ()) = some c ∧
    (c.threads ()).returned ∧ c.shared.history.map coveredAndPaid = [some (5 / 10 ^ 9, [1 / 10 ^ 8])] := by
  have hrun : ((serving (fun _ => .cover 1 (5 / 10 ^ 9) none "USDT" none) (twoFunds 100 20)).run
      (fundSql.machine Outcome Unit) (List.replicate 13 ())).any fun c => (c.threads ()).returned ∧
        c.shared.history.map coveredAndPaid = [some (5 / 10 ^ 9, [1 / 10 ^ 8])] := by
    decide +kernel
  obtain ⟨c, hc, h⟩ := (Option.any_eq_true _ _).mp hrun
  exact ⟨c, hc, of_decide_eq_true h⟩

end Protection
