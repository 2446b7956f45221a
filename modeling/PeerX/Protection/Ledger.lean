import PeerX.Protection.Sessions
import Mathlib.Data.List.Chain
import Mathlib.Tactic.Linarith

/-!
# Protection: balances and audit rows

The balance of a fund is its initial balance plus what its committed rows credit, minus what they
pay out, and each row starts from the balance the row before it left. The debit, the credit and the
audit row are kept together by the lock of the fund. The health refresh is not: it saves the balance
it read before, so it undoes what was committed in between. The balances are right in every run
whose refreshes save the balance that is stored.
-/

namespace Protection

open Relational Concurrency

/-- What the rows add to a balance. -/
def credits (rows : List InsuranceTransaction) : ℚ :=
  ((rows.filter (·.type ≠ .payout)).map (·.amount)).sum

/-- What the rows take from a balance. -/
def payouts (rows : List InsuranceTransaction) : ℚ :=
  ((rows.filter (·.type = .payout)).map (·.amount)).sum

/-- The rows lead from the balance `b₀` to the balance `b`, each from where the one before it
ended. -/
structure Ledger (b₀ : ℚ) (rows : List InsuranceTransaction) (b : ℚ) : Prop where
  balance : b = b₀ + credits rows - payouts rows
  chained : rows.IsChain fun t t' => t'.balanceBefore = t.balanceAfter
  last : ∀ t ∈ rows.getLast?, t.balanceAfter = b

/-- Every fund of `d` has the balance that its new rows account for. -/
def Reconciled (d₀ d : ProtectionDb) : Prop :=
  ∀ f ∈ d.funds.rows, ∃ f₀ rows, d₀.funds.find f.id = some f₀ ∧
    d.transactionsOf f.id = d₀.transactionsOf f.id ++ rows ∧ Ledger f₀.balance rows f.balance

/-- A health refresh saves the balance that is stored. -/
def SavesFresh {ι : Type} (_ : ι) : Cmd Stmt Outcome → FundServer ι → Prop
  | .auto (.saveFund f), s => ∀ g ∈ s.committed.funds.find f.id, g.balance = f.balance
  | _, _ => True

instance {ι : Type} (i : ι) : ∀ (cmd : Cmd Stmt Outcome) (s : FundServer ι),
    Decidable (SavesFresh i cmd s)
  | .auto (.saveFund f), s =>
    inferInstanceAs (Decidable (∀ g ∈ s.committed.funds.find f.id, g.balance = f.balance))
  | .auto (.findTier _), _ | .auto (.findFundOfTier _ _), _ | .auto (.findFund _), _
  | .auto (.debit _ _), _ | .auto (.credit _ _), _ | .auto (.insertTransaction _), _
  | .auto (.insertLiquidation _), _ | .stmt _, _ | .commit _, _ | .rollback, _ =>
    inferInstanceAs (Decidable True)

theorem ledger_nil (b : ℚ) : Ledger b [] b :=
  ⟨by simp [credits, payouts], .nil, by simp⟩

theorem credits_append (rows : List InsuranceTransaction) (t : InsuranceTransaction) :
    credits (rows ++ [t]) = credits rows + if t.type = .payout then 0 else t.amount := by
  by_cases ht : t.type = .payout <;> simp [credits, ht]

theorem payouts_append (rows : List InsuranceTransaction) (t : InsuranceTransaction) :
    payouts (rows ++ [t]) = payouts rows + if t.type = .payout then t.amount else 0 := by
  by_cases ht : t.type = .payout <;> simp [payouts, ht]

theorem Ledger.recorded {b₀ : ℚ} {rows : List InsuranceTransaction} {f : InsuranceFund}
    (h : Ledger b₀ rows f.balance) (type : InsuranceTxType) (amount : ℚ)
    (options : InsuranceTransactionOptions) :
    Ledger b₀ (rows ++ [auditRow (f.moved type amount) type amount options])
      (f.moved type amount).balance := by
  have hbefore : (auditRow (f.moved type amount) type amount options).balanceBefore = f.balance := by
    by_cases ht : type = .payout <;> simp [auditRow, InsuranceFund.moved, ht]
  constructor
  · rw [credits_append, payouts_append]
    by_cases ht : type = .payout
    · simp only [InsuranceFund.moved, auditRow, if_pos ht]
      linarith [h.balance]
    · simp only [InsuranceFund.moved, auditRow, if_neg ht]
      linarith [h.balance]
  · refine h.chained.append (.singleton _) fun t ht t' ht' => ?_
    obtain rfl : auditRow (f.moved type amount) type amount options = t' := by simpa using ht'
    rw [hbefore, h.last t ht]
  · intro t ht
    obtain rfl : auditRow (f.moved type amount) type amount options = t := by simpa using ht
    rfl

/-- The policy of the ledger: the balance of each fund is what its new rows account for, and a
refresh is admitted over the balance it read. -/
def ledgerPolicy (d₀ : ProtectionDb) : FundPolicy where
  home := d₀
  good k v := ∀ f₀ f, d₀.funds.find k = some f₀ → v.fund = some f →
    ∃ rows, v.transactions = d₀.transactionsOf k ++ rows ∧ Ledger f₀.balance rows f.balance
  amountOk _ := True
  coverOk _ := True
  admits g f := g.balance = f.balance
  ordered := False
  order _ := []
  amountOk_of_cover _ _ := trivial
  coverOk_sub _ _ := trivial
  coverOk_balance _ _ := trivial
  recorded := by
    intro v f type amount options h hf _ _ f₀ f' hf₀ hf'
    cases hf'
    obtain ⟨rows, hrows, hledger⟩ := h f₀ f hf₀ hf
    refine ⟨rows ++ [auditRow (f.moved type amount) type amount options], ?_,
      hledger.recorded type amount options⟩
    rw [hrows, List.append_assoc]
  refreshed := by
    intro v v' f g _ _ h hg hadmits f₀ f' hf₀ hf'
    cases hf'
    obtain ⟨rows, hrows, hledger⟩ := h f₀ g hf₀ hg
    exact ⟨rows, hrows, hadmits ▸ hledger⟩

variable {ι : Type} [DecidableEq ι]

/-- **The balances are right**, of amounts that are held exactly: in every state of every run of any
calls whose health refreshes save the balance that is stored. The numbers stay held exactly. -/
theorem balances_reconcile {calls : ι → Call} {d₀ : ProtectionDb} (hd : d₀.Exact) (hcalls : ∀ i, (calls i).Exact)
    {is : List ι} {c : Serving ι}
    (hr : (serving calls d₀).run (fundSql.machine Outcome ι) is = some c)
    (hfresh : (serving calls d₀).Admitted (fundSql.machine Outcome ι) SavesFresh is) :
    c.shared.committed.Exact ∧ Reconciled d₀ c.shared.committed := by
  have hgood : ∀ k, (ledgerPolicy d₀).Good k (fundRows.obs k d₀) := by
    intro k
    refine ⟨⟨rfl, rfl, fun f hf => ⟨f, hf, rfl, rfl⟩⟩, fun f₀ f hf₀ hf => ?_⟩
    obtain rfl : f₀ = f := Option.some.inj (hf₀.symm.trans hf)
    exact ⟨[], (List.append_nil _).symm, ledger_nil _⟩
  have hallows : ∀ i, (ledgerPolicy d₀).Allows (calls i) := by
    intro i
    cases calls i with
    | record fundId type amount options => trivial
    | cover userId shortfallAmount positionId asset preferredTier => exact ⟨trivial, fun ho => ho.elim⟩
  have hadmitted : (serving calls d₀).Admitted (fundSql.machine Outcome ι)
      (ledgerPolicy d₀).FreshSave is := hfresh
  have hinv := (serving_safe hgood hallows hr hadmitted).1
  refine ⟨exact_run hd hcalls hr, fun f hf => ?_⟩
  have hgood := hinv.committed f.id
  have hfind : (fundRows.obs f.id c.shared.committed).fund = some f := Table.find_of_mem hf
  obtain ⟨f₀, hf₀, -⟩ := hgood.same.same f hfind
  obtain ⟨rows, hrows, hledger⟩ := hgood.good f₀ f hf₀ hfind
  exact ⟨f₀, rows, hf₀, hrows, hledger⟩

/-- One fund with a balance of 100. -/
def oneFund : ProtectionDb where
  tiers := ⟨[⟨1, .low⟩], by simp⟩
  funds := ⟨[⟨1, 1, "USDT", 100, 200, .healthy, 50⟩], by simp⟩
  transactions := []
  liquidations := []

/-- Replenishments of 10 and of 20. -/
def replenishments : Bool → Call
  | true => .record 1 .replenishment 10 ⟨none, none⟩
  | false => .record 1 .replenishment 20 ⟨none, none⟩

/-- Each replenishment with its refresh, one after the other. -/
def refreshAtOnce : List Bool := List.replicate 6 true ++ List.replicate 6 false

theorem replenishments_reconcile :
    ∃ c, (serving replenishments oneFund).run (fundSql.machine Outcome Bool) refreshAtOnce = some c ∧
      c.shared.committed.Exact ∧ Reconciled oneFund c.shared.committed := by
  have hexact : oneFund.Exact := ⟨by simp [oneFund], by simp [oneFund]⟩
  have hcalls : ∀ i, (replenishments i).Exact := by rintro (_ | _) <;> simp [replenishments, Call.Exact]
  have hrun : ((serving replenishments oneFund).run (fundSql.machine Outcome Bool)
      refreshAtOnce).isSome := by
    decide +kernel
  obtain ⟨c, hc⟩ := Option.isSome_iff_exists.mp hrun
  exact ⟨c, hc, balances_reconcile hexact hcalls hc (by decide +kernel)⟩

/-- The first replenishment commits and its refresh reads the fund; the second commits, with its
refresh; then the first refresh saves the fund it read. -/
def refreshBetween : List Bool :=
  List.replicate 5 true ++ List.replicate 6 false ++ [true]

/-- **The second replenishment is lost.** Both rows are there, and the balance is 110. -/
theorem replenishment_lost :
    ∃ c, (serving replenishments oneFund).run (fundSql.machine Outcome Bool) refreshBetween = some c ∧
      (∀ i, (c.threads i).returned) ∧ ¬ Reconciled oneFund c.shared.committed := by
  have hrun : ((serving replenishments oneFund).run (fundSql.machine Outcome Bool)
      refreshBetween).any (fun c => (∀ i, (c.threads i).returned) ∧
        ∃ f ∈ c.shared.committed.funds.rows, f.id = 1 ∧ f.balance = 110 ∧
          credits (c.shared.committed.transactionsOf 1) = 30 ∧
          payouts (c.shared.committed.transactionsOf 1) = 0) := by
    decide +kernel
  obtain ⟨c, hc, hprop⟩ := (Option.any_eq_true _ _).mp hrun
  obtain ⟨hend, f, hf, hid, hbalance, hcredits, hpayouts⟩ := of_decide_eq_true hprop
  refine ⟨c, hc, hend, fun h => ?_⟩
  obtain ⟨f₀, rows, hf₀, hrows, hledger⟩ := h f hf
  rw [hid] at hf₀ hrows
  obtain rfl : c.shared.committed.transactionsOf 1 = rows := hrows
  have hinitial : f₀.balance = 100 := by
    cases hf₀
    rfl
  have hsum := hledger.balance
  rw [hbalance, hinitial, hcredits, hpayouts] at hsum
  norm_num at hsum

end Protection
