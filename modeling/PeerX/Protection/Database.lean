import PeerX.Foundations.RowInvariants
import PeerX.Protection.Entities

/-!
# Protection: the database

The tables of the insurance fund services and the statements they issue. A debit is one guarded
`UPDATE`: it locks and changes the row of the fund when the balance suffices, and otherwise does
nothing. The row of an insurance transaction goes with its fund, whose lock the transaction holds by
then.
-/

namespace Protection

open Relational Concurrency

/-- The tables. -/
structure ProtectionDb where
  tiers : Table InsuranceFundTier.id
  funds : Table InsuranceFund.id
  transactions : List InsuranceTransaction
  liquidations : List LiquidationEvent

/-- Two funds of one asset, of the lowest two tiers. -/
def twoFunds (low medium : ℚ) : ProtectionDb where
  tiers := ⟨[⟨1, .low⟩, ⟨2, .medium⟩], by simp⟩
  funds := ⟨[⟨1, 1, "USDT", low, 100, .healthy, 100⟩, ⟨2, 2, "USDT", medium, 100, .healthy, 100⟩],
    by simp⟩
  transactions := []
  liquidations := []

/-- A row write. -/
inductive Write : Type
  | fund (f : InsuranceFund)
  | transaction (t : InsuranceTransaction)
  | liquidation (e : LiquidationEvent)
deriving DecidableEq

/-- The statements of the insurance fund services. -/
inductive Stmt : Type
  /-- `tierRepo.findOne({ where: { tier } })`. -/
  | findTier (tier : FundTier)
  /-- `fundRepo.findOne({ where: { tierId, asset } })`. -/
  | findFundOfTier (tierId : ℕ) (asset : String)
  /-- `fundRepo.findOne({ where: { id } })`. -/
  | findFund (id : ℕ)
  /-- `UPDATE .. SET balance = balance - amount WHERE id = id AND balance >= amount`. -/
  | debit (id : ℕ) (amount : ℚ)
  /-- `UPDATE .. SET balance = balance + amount WHERE id = id`. -/
  | credit (id : ℕ) (amount : ℚ)
  /-- `save(InsuranceTransaction, transaction)`. -/
  | insertTransaction (t : InsuranceTransaction)
  /-- `save(LiquidationEvent, event)`. -/
  | insertLiquidation (e : LiquidationEvent)
  /-- `fundRepo.save(fund)`: every column of the entity. -/
  | saveFund (f : InsuranceFund)

/-- The replies. A debit replies whether a row was updated. -/
abbrev Stmt.Reply : Stmt → Type
  | .findTier _ => Option InsuranceFundTier
  | .findFundOfTier _ _ => Option InsuranceFund
  | .findFund _ => Option InsuranceFund
  | .debit _ _ => Bool
  | .credit _ _ => Unit
  | .insertTransaction _ => Unit
  | .insertLiquidation _ => Unit
  | .saveFund _ => Unit

/-- The effect of a row write. -/
def Write.apply : Write → ProtectionDb → ProtectionDb
  | .fund f, d => { d with funds := d.funds.save f }
  | .transaction t, d => { d with transactions := d.transactions ++ [t] }
  | .liquidation e, d => { d with liquidations := d.liquidations ++ [e] }

/-- The fund a write belongs to. -/
def Write.target : Write → Option ℕ
  | .fund f => some f.id
  | .transaction t => some t.fundId
  | .liquidation _ => none

/-- The fund a debit updates, if its balance suffices. -/
def debited (d : ProtectionDb) (id : ℕ) (amount : ℚ) : Option InsuranceFund :=
  (d.funds.find id).filter fun f => amount ≤ f.balance

/-- The rows a statement locks. -/
def Stmt.locks : Stmt → ProtectionDb → List ℕ
  | .debit id amount, d => if (debited d id amount).isSome then [id] else []
  | .credit id _, d => if (d.funds.find id).isSome then [id] else []
  | .insertTransaction t, _ => [t.fundId]
  | .saveFund f, _ => [f.id]
  | _, _ => []

/-- The reply of a statement. -/
def Stmt.reply : (c : Stmt) → ProtectionDb → c.Reply
  | .findTier tier, d => d.tiers.rows.find? (·.tier = tier)
  | .findFundOfTier tierId asset, d =>
    d.funds.rows.find? fun f => f.tierId = tierId ∧ f.asset = asset
  | .findFund id, d => d.funds.find id
  | .debit id amount, d => (debited d id amount).isSome
  | .credit _ _, _ => ()
  | .insertTransaction _, _ => ()
  | .insertLiquidation _, _ => ()
  | .saveFund _, _ => ()

/-- The writes of a statement. -/
def Stmt.writes : Stmt → ProtectionDb → List Write
  | .debit id amount, d =>
    match debited d id amount with
    | none => []
    | some f => [.fund { f with balance := f.balance - amount }]
  | .credit id amount, d =>
    match d.funds.find id with
    | none => []
    | some f => [.fund { f with balance := f.balance + amount }]
  | .insertTransaction t, _ => [.transaction t]
  | .insertLiquidation e, _ => [.liquidation e]
  | .saveFund f, _ => [.fund f]
  | _, _ => []

theorem debited_eq_some {d : ProtectionDb} {id : ℕ} {amount : ℚ} {f : InsuranceFund} :
    debited d id amount = some f ↔ d.funds.find id = some f ∧ amount ≤ f.balance := by
  simp [debited, Option.filter_eq_some_iff]

theorem Stmt.locks_of_writes (c : Stmt) (d : ProtectionDb) (w : Write) (k : ℕ)
    (hw : w ∈ c.writes d) (hk : w.target = some k) : k ∈ c.locks d := by
  cases c with
  | debit id amount =>
    cases hd : debited d id amount with
    | none => simp [Stmt.writes, hd] at hw
    | some f =>
      obtain rfl : w = .fund { f with balance := f.balance - amount } := by
        simpa [Stmt.writes, hd] using hw
      obtain rfl : f.id = k := by simpa [Write.target] using hk
      have hid : f.id = id := Table.key_of_find (debited_eq_some.mp hd).1
      simp [Stmt.locks, hd, hid]
  | credit id amount =>
    cases hd : d.funds.find id with
    | none => simp [Stmt.writes, hd] at hw
    | some f =>
      obtain rfl : w = .fund { f with balance := f.balance + amount } := by
        simpa [Stmt.writes, hd] using hw
      obtain rfl : f.id = k := by simpa [Write.target] using hk
      have hid : f.id = id := Table.key_of_find hd
      simp [Stmt.locks, hd, hid]
  | insertTransaction t =>
    obtain rfl : w = .transaction t := by simpa [Stmt.writes] using hw
    obtain rfl : t.fundId = k := by simpa [Write.target] using hk
    simp [Stmt.locks]
  | insertLiquidation e =>
    obtain rfl : w = .liquidation e := by simpa [Stmt.writes] using hw
    simp [Write.target] at hk
  | saveFund f =>
    obtain rfl : w = .fund f := by simpa [Stmt.writes] using hw
    obtain rfl : f.id = k := by simpa [Write.target] using hk
    simp [Stmt.locks]
  | findTier | findFundOfTier | findFund => simp [Stmt.writes] at hw

/-- The SQL of the insurance fund services. -/
def fundSql : Dialect Stmt Stmt.Reply ProtectionDb Write ℕ where
  apply := Write.apply
  locks := Stmt.locks
  reply := Stmt.reply
  writes := Stmt.writes
  target := Write.target
  locks_of_writes := Stmt.locks_of_writes

/-- The statement locks and writes nothing. -/
structure Stmt.Skips (c : Stmt) (d : ProtectionDb) : Prop where
  locks : c.locks d = []
  writes : c.writes d = []

/-- The statement locks the fund, and writes it. -/
structure Stmt.Updates (c : Stmt) (d : ProtectionDb) (f : InsuranceFund) : Prop where
  locks : c.locks d = [f.id]
  writes : c.writes d = [.fund f]

/-- A debit is refused and changes nothing, or the balance suffices. -/
theorem debit_cases (id : ℕ) (amount : ℚ) (d : ProtectionDb) :
    ((Stmt.debit id amount).Skips d ∧ Stmt.reply (.debit id amount) d = false ∧
        debited d id amount = none) ∨
      ∃ f, d.funds.find id = some f ∧ amount ≤ f.balance ∧
        (Stmt.debit id amount).Updates d { f with balance := f.balance - amount } ∧
        Stmt.reply (.debit id amount) d = true := by
  cases hd : debited d id amount with
  | none => exact .inl ⟨⟨by simp [Stmt.locks, hd], by simp [Stmt.writes, hd]⟩,
      congrArg Option.isSome hd, rfl⟩
  | some f =>
    obtain ⟨hfind, hle⟩ := debited_eq_some.mp hd
    have hid : f.id = id := Table.key_of_find hfind
    exact .inr ⟨f, hfind, hle, ⟨by simp [Stmt.locks, hd, hid], by simp [Stmt.writes, hd]⟩,
      congrArg Option.isSome hd⟩

/-- A credit changes nothing without the fund. -/
theorem credit_cases (id : ℕ) (amount : ℚ) (d : ProtectionDb) :
    ((Stmt.credit id amount).Skips d ∧ d.funds.find id = none) ∨
      ∃ f, d.funds.find id = some f ∧
        (Stmt.credit id amount).Updates d { f with balance := f.balance + amount } := by
  cases hfind : d.funds.find id with
  | none => exact .inl ⟨⟨by simp [Stmt.locks, hfind], by simp [Stmt.writes, hfind]⟩, rfl⟩
  | some f =>
    have hid : f.id = id := Table.key_of_find hfind
    exact .inr ⟨f, rfl, ⟨by simp [Stmt.locks, hfind, hid], by simp [Stmt.writes, hfind]⟩⟩

/-- Programs of statements: the body of a transaction. -/
abbrev Tx (α : Type) := Prog Stmt Stmt.Reply ProtectionError α

/-- A statement. -/
abbrev query (c : Stmt) : Tx c.Reply := Prog.perform c

/-- The sessions of the insurance fund services. -/
abbrev ProtectionSession (α : Type) := Session (C := Stmt) Stmt.Reply Outcome ProtectionError α

/-- A statement outside any transaction. -/
abbrev bare (c : Stmt) : ProtectionSession c.Reply := autocommit c

/-- A fund with the rows of its transactions, and the tiers, which nothing changes. -/
structure FundView where
  fund : Option InsuranceFund
  transactions : List InsuranceTransaction
  tiers : Table InsuranceFundTier.id

/-- The insurance transactions of a fund, in the order they were committed. -/
def ProtectionDb.transactionsOf (d : ProtectionDb) (k : ℕ) : List InsuranceTransaction :=
  d.transactions.filter (·.fundId = k)

/-- The view of a fund is protected by its lock. -/
def fundRows : fundSql.Rows FundView where
  obs k d := ⟨d.funds.find k, d.transactionsOf k, d.tiers⟩
  frame := by
    intro w d k hw
    cases w with
    | fund f =>
      have hne : k ≠ f.id := fun e => hw (congrArg some e.symm)
      simp only [fundSql, Write.apply, Table.find_save_of_ne _ hne]
      rfl
    | transaction t =>
      have hne : t.fundId ≠ k := fun e => hw (congrArg some e)
      simp [fundSql, Write.apply, ProtectionDb.transactionsOf, hne]
    | liquidation e => rfl
  congr := by
    intro w d d' k h
    obtain ⟨hfund, htransactions, htiers⟩ := FundView.mk.inj h
    cases w with
    | fund f =>
      simp only [fundSql, Write.apply, Table.find_save, hfund, FundView.mk.injEq, htiers, true_and,
        and_true]
      exact htransactions
    | transaction t =>
      simp only [ProtectionDb.transactionsOf] at htransactions
      simp [fundSql, Write.apply, ProtectionDb.transactionsOf, List.filter_append, htransactions,
        hfund, htiers]
    | liquidation e => exact h

theorem obs_fund {d : ProtectionDb} {f : InsuranceFund} {k : ℕ} (h : f.id = k) :
    fundRows.obs k (fundSql.applyAll [.fund f] d) = ⟨some f, d.transactionsOf k, d.tiers⟩ := by
  subst h
  show FundView.mk ((d.funds.save f).find f.id) _ _ = _
  rw [Table.find_save_self]
  rfl

/-- The view of a fund after a transaction of it was stored. -/
theorem obs_transaction {d : ProtectionDb} {t : InsuranceTransaction} {k : ℕ} (h : t.fundId = k) :
    fundRows.obs k (fundSql.applyAll [.transaction t] d) =
      ⟨d.funds.find k, d.transactionsOf k ++ [t], d.tiers⟩ := by
  subst h
  show FundView.mk (d.funds.find t.fundId) (List.filter _ (d.transactions ++ [t])) d.tiers = _
  rw [List.filter_append]
  simp [ProtectionDb.transactionsOf]

end Protection
