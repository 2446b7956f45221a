import PeerX.Foundations.Alone
import PeerX.Protection.Readings
import Mathlib.Tactic.Linarith
import Mathlib.Tactic.Ring

/-!
# Protection: a coverage that runs alone

Without other sessions, the balances a coverage has read are those it debits. It debits each fund of
its asset once, in the order of the tiers, and covers the shortfall or everything there is.
-/

namespace Protection

open Relational Concurrency

/-- What the fund of a tier holds. -/
def available (d : ProtectionDb) (asset : String) (tier : FundTier) : ℚ :=
  (fundOf d asset tier).elim 0 fun f => max 0 f.balance

/-- The funds of the tiers, as they are found before the transaction. -/
def fundsFound (d : ProtectionDb) (asset : String) (tiers : List FundTier) :
    List (FundTier × InsuranceFund) :=
  tiers.filterMap fun tier => (fundOf d asset tier).map (tier, ·)

section Reads

variable {d : ProtectionDb} {asset : String} {tier : FundTier} {tiers : List FundTier}
  {f : InsuranceFund}

theorem available_nonneg : 0 ≤ available d asset tier := by
  unfold available
  cases fundOf d asset tier with
  | none => exact le_rfl
  | some f => exact le_max_left _ _

theorem mem_fundsFound : (tier, f) ∈ fundsFound d asset tiers ↔
    tier ∈ tiers ∧ fundOf d asset tier = some f := by
  simp only [fundsFound, List.mem_filterMap, Option.map_eq_some_iff, Prod.mk.injEq]
  constructor
  · rintro ⟨tier', hmem, f', hf', rfl, rfl⟩
    exact ⟨hmem, hf'⟩
  · rintro ⟨hmem, hf⟩
    exact ⟨tier, hmem, f, hf, rfl, rfl⟩

theorem find_fundsFound (hmem : tier ∈ tiers) :
    (fundsFound d asset tiers).find? (·.1 = tier) = (fundOf d asset tier).map (tier, ·) := by
  cases hfind : (fundsFound d asset tiers).find? (·.1 = tier) with
  | none =>
    cases hf : fundOf d asset tier with
    | none => rfl
    | some f =>
      have hnot := List.find?_eq_none.mp hfind _ (mem_fundsFound.mpr ⟨hmem, hf⟩)
      simp at hnot
  | some p =>
    obtain ⟨tier', f⟩ := p
    obtain rfl : tier' = tier := by simpa using List.find?_some hfind
    rw [(mem_fundsFound.mp (List.mem_of_find?_eq_some hfind)).2]
    rfl

theorem does_getFundsByTier_of_some (h : fundOf d asset tier = some f) :
    fundSql.Does (getFundsByTier tier asset) d (.ok f) d := by
  obtain ⟨t, ht, hf⟩ := fundOf_eq_some.mp h
  refine (Dialect.does_autocommit (Stmt.findTier tier) d).bind ?_
  rw [show fundSql.reply (.findTier tier) d = some t from ht]
  refine (Dialect.does_autocommit (Stmt.findFundOfTier t.id asset) d).bind ?_
  rw [show fundSql.reply (.findFundOfTier t.id asset) d = some f from hf]
  exact Dialect.does_ret f d

theorem does_getFundsByTier_of_none (h : fundOf d asset tier = none) :
    ∃ message, fundSql.Does (getFundsByTier tier asset) d (.error (.notFound message)) d := by
  unfold fundOf at h
  cases ht : Stmt.reply (.findTier tier) d with
  | none =>
    refine ⟨"Fund tier " ++ tier.text ++ " not found",
      (Dialect.does_autocommit (Stmt.findTier tier) d).bind ?_⟩
    rw [show fundSql.reply (.findTier tier) d = none from ht]
    rfl
  | some t =>
    rw [ht, Option.bind_some] at h
    refine ⟨"Fund for tier " ++ tier.text ++ " and asset " ++ asset ++ " not found",
      (Dialect.does_autocommit (Stmt.findTier tier) d).bind ?_⟩
    rw [show fundSql.reply (.findTier tier) d = some t from ht]
    refine (Dialect.does_autocommit (Stmt.findFundOfTier t.id asset) d).bind ?_
    rw [show fundSql.reply (.findFundOfTier t.id asset) d = none from h]
    rfl

/-- The lookup for one tier, with a missing fund skipped. -/
theorem does_tryFund (d : ProtectionDb) (asset : String) (tier : FundTier) :
    fundSql.Does (tryCatch (some <$> getFundsByTier tier asset) fun
      | .notFound _ => return none
      | err => throw err : ProtectionSession (Option InsuranceFund)) d
      (.ok (fundOf d asset tier)) d := by
  unfold Dialect.Does
  rw [Prog.eval_tryCatch, Prog.eval_map]
  cases h : fundOf d asset tier with
  | some f =>
    rw [show (getFundsByTier tier asset).eval fundSql.alone (d, d) = (.ok f, (d, d)) from
      does_getFundsByTier_of_some h]
    rfl
  | none =>
    obtain ⟨message, hdoes⟩ := does_getFundsByTier_of_none h
    rw [show (getFundsByTier tier asset).eval fundSql.alone (d, d) =
      (.error (.notFound message), (d, d)) from hdoes]
    rfl

/-- The advisory reads find the funds that are there. -/
theorem does_findFunds (d : ProtectionDb) (asset : String) (tiers : List FundTier) :
    fundSql.Does (findFunds asset tiers) d (.ok (fundsFound d asset tiers)) d := by
  induction tiers with
  | nil => exact Dialect.does_ret [] d
  | cons tier tiers ih =>
    refine (does_tryFund d asset tier).bind (ih.bind ?_)
    cases h : fundOf d asset tier with
    | none => simp only [fundsFound, List.filterMap_cons, h, Option.map_none]; rfl
    | some f => simp only [fundsFound, List.filterMap_cons, h, Option.map_some]; rfl

end Reads

/-! ## The transaction -/

section Walk

variable {d e : ProtectionDb} {asset : String} {tier : FundTier} {tiers : List FundTier}
  {f : InsuranceFund} {k : ℕ} {amount : ℚ} {options : InsuranceTransactionOptions} {c : Coverage}

/-- What a payout leaves: the fund with its new balance, and the other tables as they were. -/
structure PaidFrom (e : ProtectionDb) (f : InsuranceFund) (amount : ℚ) (e' : ProtectionDb) : Prop where
  funds : e'.funds = e.funds.save (f.moved .payout amount)
  liquidations : e'.liquidations = e.liquidations

/-- A payout of what is there. -/
theorem eval_executeRecordTransaction (options : InsuranceTransactionOptions) (hf : e.funds.find k = some f) (hle : amount ≤ f.balance) :
    ∃ a e', (executeRecordTransaction k .payout amount options).eval fundSql.handler e =
      (.ok a, e') ∧ PaidFrom e f amount e' := by
  obtain rfl : f.id = k := Table.key_of_find hf
  have hd : debited e f.id amount = some f := debited_eq_some.mpr ⟨hf, hle⟩
  have hdebit : fundSql.handler (.debit f.id amount) e =
      (true, { e with funds := e.funds.save (f.moved .payout amount) }) := by
    simp only [Dialect.handler, fundSql, Stmt.reply, Stmt.writes, hd]
    rfl
  have hread : fundSql.handler (.findFund f.id)
      { e with funds := e.funds.save (f.moved .payout amount) } =
      (some (f.moved .payout amount), { e with funds := e.funds.save (f.moved .payout amount) }) :=
    Prod.ext (Table.find_save_self e.funds (f.moved .payout amount)) rfl
  let row := auditRow (f.moved .payout amount) .payout amount options
  refine ⟨(f.moved .payout amount, row), { e with
    funds := e.funds.save (f.moved .payout amount)
    transactions := e.transactions ++ [row] }, ?_, ⟨rfl, rfl⟩⟩
  simp only [executeRecordTransaction, if_pos, Prog.perform_bind, Prog.eval_call, hdebit, audit,
    getFund, Prog.call_bind, hread]
  rfl

theorem eval_attemptPayout (remaining : ℚ) (options : InsuranceTransactionOptions)
    (attempts attempt : ℕ) (hf : e.funds.find k = some f)
    (hle : amount ≤ f.balance) :
    ∃ e', (attemptPayout k remaining options (attempts + 1) attempt amount).eval fundSql.handler e =
      (.ok (some amount), e') ∧ PaidFrom e f amount e' := by
  obtain ⟨a, e', heval, hpaid⟩ := eval_executeRecordTransaction options hf hle
  refine ⟨e', ?_, hpaid⟩
  simp only [attemptPayout]
  rw [Prog.eval_bind, Prog.eval_tryCatch, Prog.eval_map, heval]
  rfl

/-- The walk on its way: the funds of the tiers ahead are as they were read, and those that were
used are there. -/
structure Ahead (d : ProtectionDb) (asset : String) (tiers : List FundTier) (c : Coverage)
    (e : ProtectionDb) : Prop where
  funds : ∀ tier ∈ tiers, ∀ f, fundOf d asset tier = some f → e.funds.find f.id = some f
  used : ∀ u ∈ c.fundsUsed, (e.funds.find u.fundId).isSome
  liquidations : e.liquidations = d.liquidations

theorem Ahead.tail (h : Ahead d asset (tier :: tiers) c e) : Ahead d asset tiers c e :=
  ⟨fun tier' htier' => h.funds tier' (List.mem_cons_of_mem _ htier'), h.used, h.liquidations⟩

theorem Ahead.use {e' : ProtectionDb} (h : Ahead d asset (tier :: tiers) c e) (hnot : tier ∉ tiers)
    (hf : fundOf d asset tier = some f) (hpaid : PaidFrom e f amount e') :
    Ahead d asset tiers (c.use f.id tier amount) e' := by
  constructor
  · intro tier' htier' f' hf'
    have hne : f'.id ≠ (f.moved .payout amount).id := by
      intro hid
      exact hnot (tier_eq_of_fundOf hf' hf hid ▸ htier')
    rw [hpaid.funds, Table.find_save_of_ne _ hne]
    exact h.funds tier' (List.mem_cons_of_mem _ htier') f' hf'
  · intro u hu
    rw [hpaid.funds]
    rcases List.mem_append.mp hu with hu | hu
    · exact Table.isSome_find_save (h.used u hu)
    · obtain rfl := List.mem_singleton.mp hu
      rw [show f.id = (f.moved .payout amount).id from rfl, Table.find_save_self]
      rfl
  · rw [hpaid.liquidations, h.liquidations]

theorem sub_min_sub {r b S : ℚ} (hS : 0 ≤ S) :
    r - min b r - min (r - min b r) S = r - min r (b + S) := by
  rcases le_total b r with hle | hle
  · rw [min_eq_left hle]
    rcases le_total (r - b) S with h | h
    · rw [min_eq_left h, min_eq_left (by linarith)]
      ring
    · rw [min_eq_right h, min_eq_right (by linarith)]
      ring
  · rw [min_eq_right hle, sub_self, min_eq_left hS, min_eq_left (by linarith)]
    ring

theorem sum_available_nonneg (d : ProtectionDb) (asset : String) (tiers : List FundTier) :
    0 ≤ (tiers.map (available d asset)).sum := by
  refine List.sum_nonneg fun a ha => ?_
  obtain ⟨tier, -, rfl⟩ := List.mem_map.mp ha
  exact available_nonneg

variable (options) in
/-- **The tier walk** takes the smaller one of what remains and what is available. -/
theorem eval_coverLoop {tiers₀ : List FundTier} (hsub : ∀ tier ∈ tiers, tier ∈ tiers₀)
    (hnodup : tiers.Nodup) (hpos : 0 ≤ c.remaining) (h : Ahead d asset tiers c e) :
    ∃ c' e', (coverLoop (fundsFound d asset tiers₀) options tiers c).eval fundSql.handler e =
      (.ok c', e') ∧ Ahead d asset [] c' e' ∧
      c'.remaining = c.remaining - min c.remaining (tiers.map (available d asset)).sum := by
  induction tiers generalizing c e with
  | nil =>
    refine ⟨c, e, rfl, h, ?_⟩
    rw [List.map_nil, List.sum_nil, min_eq_right hpos, sub_zero]
  | cons tier tiers ih =>
    obtain ⟨hnot, hnodup'⟩ := List.nodup_cons.mp hnodup
    have hsub' : ∀ tier' ∈ tiers, tier' ∈ tiers₀ := fun tier' h' => hsub tier' (.tail _ h')
    have hsum := sum_available_nonneg d asset tiers
    rw [List.map_cons, List.sum_cons]
    -- a tier with nothing available is skipped
    have hskip : available d asset tier = 0 →
        ∃ c' e', (coverLoop (fundsFound d asset tiers₀) options tiers c).eval fundSql.handler e =
          (.ok c', e') ∧ Ahead d asset [] c' e' ∧ c'.remaining = c.remaining -
            min c.remaining (available d asset tier + (tiers.map (available d asset)).sum) := by
      intro hzero
      rw [hzero, zero_add]
      exact ih hsub' hnodup' hpos h.tail
    simp only [coverLoop]
    by_cases hdone : c.remaining ≤ 0
    · -- the shortfall is covered, and the loop breaks
      rw [if_pos hdone]
      have hzero : c.remaining = 0 := le_antisymm hdone hpos
      refine ⟨c, e, rfl, ⟨fun tier' h' => (by cases h'), h.used, h.liquidations⟩, ?_⟩
      rw [hzero, min_eq_left (add_nonneg available_nonneg hsum), sub_zero]
    · rw [if_neg hdone, find_fundsFound (hsub tier List.mem_cons_self)]
      cases hf : fundOf d asset tier with
      | none =>
        refine hskip ?_
        rw [available, hf]
        rfl
      | some f =>
        show ∃ c' e', (if f.balance ≤ 0 then _ else _ : Tx Coverage).eval fundSql.handler e = _ ∧ _
        have havailable : available d asset tier = max 0 f.balance := by
          rw [available, hf]
          rfl
        by_cases hempty : f.balance ≤ 0
        · rw [if_pos hempty]
          exact hskip (havailable.trans (max_eq_left hempty))
        · rw [if_neg hempty]
          have hbalance : available d asset tier = f.balance :=
            havailable.trans (max_eq_right (not_le.mp hempty).le)
          -- the fund still has the balance that was read, so the first attempt succeeds
          have hfind := h.funds tier List.mem_cons_self f hf
          obtain ⟨e₁, heval, hpaid⟩ := eval_attemptPayout c.remaining options 1 0 hfind
            (min_le_left f.balance c.remaining)
          have hahead := h.use hnot hf hpaid
          have hleft : 0 ≤ (c.use f.id tier (min f.balance c.remaining)).remaining :=
            sub_nonneg.mpr (min_le_right _ _)
          obtain ⟨c', e', hrest, hend, hremaining⟩ := ih hsub' hnodup' hleft hahead
          refine ⟨c', e', ?_, hend, ?_⟩
          · unfold maxDebitAttemptsPerTier
            rw [Prog.eval_bind, heval]
            exact hrest
          · rw [hremaining, hbalance]
            exact sub_min_sub hsum

end Walk

/-! ## The session -/

section Session

variable {d e : ProtectionDb} {asset : String} {userId : ℕ} {shortfallAmount : ℚ}
  {positionId : Option String} {preferredTier : Option FundTier}

theorem tiersToTry_perm (preferredTier : Option FundTier) :
    (tiersToTry preferredTier).Perm tierPriority := by
  cases preferredTier with
  | none => exact .refl _
  | some tier => cases tier <;> decide

variable (d asset userId positionId preferredTier) in
/-- The transaction covers what it can. -/
theorem eval_coverTransaction (hpos : 0 < shortfallAmount) :
    ∃ result e, (coverTransaction userId shortfallAmount positionId
        (fundsFound d asset (tiersToTry preferredTier)) (tiersToTry preferredTier)).eval
          fundSql.handler d = (.ok result, e) ∧
      e.liquidations = d.liquidations ++ [result.liquidationEvent] ∧
      (∀ u ∈ result.fundsUsed, (e.funds.find u.fundId).isSome) ∧
      result.liquidationEvent.coveredAmount =
        min shortfallAmount (tierPriority.map (available d asset)).sum := by
  have hstart : Ahead d asset (tiersToTry preferredTier) ⟨shortfallAmount, [], none⟩ d :=
    ⟨fun tier _ f hf => Table.find_of_mem (mem_of_fundOf hf), fun u hu => (by cases hu), rfl⟩
  obtain ⟨c, e, heval, hend, hremaining⟩ := eval_coverLoop ⟨positionId, some userId⟩ (fun _ h => h) (nodup_tiersToTry preferredTier) hpos.le hstart
  let event := (c.result userId shortfallAmount positionId).liquidationEvent
  refine ⟨c.result userId shortfallAmount positionId,
    { e with liquidations := e.liquidations ++ [event] }, ?_, ?_, hend.used, ?_⟩
  · unfold coverTransaction
    rw [Prog.eval_bind, heval]
    rfl
  · rw [← hend.liquidations]
  · show shortfallAmount - c.remaining = _
    rw [hremaining, sub_sub_cancel, ((tiersToTry_perm preferredTier).map _).sum_eq]

theorem does_updateFundHealth {k : ℕ} (h : (e.funds.find k).isSome) :
    ∃ f e', fundSql.Does (updateFundHealth k) e (.ok f) e' ∧ e'.liquidations = e.liquidations ∧
      ∀ k', (e.funds.find k').isSome → (e'.funds.find k').isSome := by
  obtain ⟨f, hf⟩ := Option.isSome_iff_exists.mp h
  refine ⟨f.refreshed, { e with funds := e.funds.save f.refreshed }, ?_, rfl,
    fun k' hk' => Table.isSome_find_save hk'⟩
  refine (Dialect.does_autocommit (Stmt.findFund k) e).bind ?_
  rw [show fundSql.reply (.findFund k) e = some f from hf]
  exact (Dialect.does_autocommit (Stmt.saveFund f.refreshed) e).bind (Dialect.does_ret _ _)

theorem does_refreshAll {fundsUsed : List FundUsed}
    (h : ∀ u ∈ fundsUsed, (e.funds.find u.fundId).isSome) :
    ∃ e', fundSql.Does (refreshAll fundsUsed) e (.ok ()) e' ∧ e'.liquidations = e.liquidations := by
  induction fundsUsed generalizing e with
  | nil => exact ⟨e, Dialect.does_ret () e, rfl⟩
  | cons used fundsUsed ih =>
    obtain ⟨hused, hrest⟩ := List.forall_mem_cons.mp h
    obtain ⟨f, e₁, hdoes, hsame, hkept⟩ := does_updateFundHealth hused
    obtain ⟨e', hdoes', hsame'⟩ := ih fun u hu => hkept _ (hrest u hu)
    exact ⟨e', hdoes.bind hdoes', hsame'.trans hsame⟩

variable (d asset userId positionId preferredTier) in
/-- `coverShortfall` run alone. -/
theorem does_coverShortfall (hpos : 0 < shortfallAmount) :
    ∃ result d', fundSql.Does
        (coverShortfall userId shortfallAmount positionId asset preferredTier) d (.ok result) d' ∧
      d'.liquidations = d.liquidations ++ [result.liquidationEvent] ∧
      result.liquidationEvent.coveredAmount =
        min shortfallAmount (tierPriority.map (available d asset)).sum := by
  obtain ⟨result, e, heval, hliquidations, hused, hcovered⟩ := eval_coverTransaction d asset
    userId positionId preferredTier hpos
  obtain ⟨d', hrefresh, hsame⟩ := does_refreshAll hused
  refine ⟨result, d', ?_, hsame.trans hliquidations, hcovered⟩
  unfold coverShortfall
  rw [if_neg (not_le.mpr hpos)]
  refine (does_findFunds d asset _).bind ((Dialect.does_transaction heval).bind ?_)
  exact hrefresh.bind (Dialect.does_ret result d')

theorem bracketed_findFunds (asset : String) (tiers : List FundTier) :
    Bracketed (findFunds asset tiers) false := by
  have hget : ∀ tier, Bracketed (getFundsByTier tier asset) false := by
    intro tier
    refine (bracketed_autocommit _).bind fun found => ?_
    cases found with
    | none => exact rfl
    | some t =>
      refine (bracketed_autocommit _).bind fun found => ?_
      cases found with
      | none => exact rfl
      | some f => exact rfl
  induction tiers with
  | nil => exact rfl
  | cons tier tiers ih =>
    refine Bracketed.bind (Bracketed.tryCatch ?_ fun e => ?_) fun found => ih.bind fun _ => rfl
    · rw [map_eq_pure_bind]
      exact (hget tier).bind fun f => rfl
    · cases e <;> exact rfl

theorem bracketed_refreshAll (fundsUsed : List FundUsed) :
    Bracketed (refreshAll fundsUsed) false := by
  induction fundsUsed with
  | nil => exact rfl
  | cons used fundsUsed ih =>
    refine Bracketed.bind ((bracketed_autocommit _).bind fun found => ?_) fun _ => ih
    cases found with
    | none => exact rfl
    | some f => exact (bracketed_autocommit _).bind fun _ => rfl

theorem bracketed_coverShortfall :
    Bracketed (coverShortfall userId shortfallAmount positionId asset preferredTier) false := by
  unfold coverShortfall
  split
  · exact rfl
  · exact (bracketed_findFunds asset _).bind fun _ => (bracketed_transaction _ _).bind fun outcome =>
      (bracketed_refreshAll outcome.fundsUsed).bind fun _ => rfl

/-- **A coverage on a server** on which no other session takes a step. -/
theorem coverShortfall_alone {ι : Type} [DecidableEq ι] {calls : ι → Call} {i : ι}
    (hcall : calls i = .cover userId shortfallAmount positionId asset preferredTier)
    (hpos : 0 < shortfallAmount) (d : ProtectionDb) :
    ∃ n c event, (serving calls d).run (fundSql.machine Outcome ι) (List.replicate n i) = some c ∧
      (c.threads i).returned ∧
      c.shared.committed.liquidations = d.liquidations ++ [event] ∧
      event.coveredAmount = min shortfallAmount (tierPriority.map (available d asset)).sum := by
  obtain ⟨result, d', hdoes, hliquidations, hcovered⟩ := does_coverShortfall d asset userId
    positionId preferredTier hpos
  have hsession : fundSql.Does (calls i).session d (.ok ()) d' := by
    rw [hcall]
    exact hdoes.bind (Dialect.does_ret () d')
  have hbracketed : Bracketed (calls i).session false := by
    rw [hcall]
    exact bracketed_coverShortfall.bind fun _ => rfl
  obtain ⟨n, c, hrun, hend, hcommitted⟩ := hsession.run hbracketed
    (t := fun i => (calls i).session) rfl
  refine ⟨n, c, result.liquidationEvent, hrun, ?_, ?_, hcovered⟩
  · rw [hend]
    rfl
  · rw [hcommitted, hliquidations]

end Session

end Protection
