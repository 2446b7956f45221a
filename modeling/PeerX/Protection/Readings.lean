import PeerX.Foundations.Watched
import PeerX.Protection.Coverage

/-!
# Protection: what a session has read of the funds

The fund of a tier is a matter of the layout of the tables, which no session changes. A coverage
reads the funds of its asset before its transaction, and reads a fund again when its debit is
refused; in between, a fund can change. The condition on the steps says where such a change does no
harm.
-/

namespace Protection

open Relational Concurrency

/-- What no session changes of a fund. -/
def InsuranceFund.place (f : InsuranceFund) : ℕ × ℕ × String := (f.id, f.tierId, f.asset)

/-- The tiers, and the places of the funds. -/
structure Layout where
  tiers : List InsuranceFundTier
  funds : List (ℕ × ℕ × String)

/-- The layout of the tables. -/
def ProtectionDb.layout (d : ProtectionDb) : Layout := ⟨d.tiers.rows, d.funds.rows.map (·.place)⟩

/-- The id of the fund that the lookups for a tier find. -/
def Layout.fundId (l : Layout) (asset : String) (tier : FundTier) : Option ℕ :=
  (l.tiers.find? (·.tier = tier)).bind fun t =>
    (l.funds.find? fun p => p.2.1 = t.id ∧ p.2.2 = asset).map (·.1)

/-- The fund of a tier: the one that `getFundsByTier` finds. -/
def fundOf (d : ProtectionDb) (asset : String) (tier : FundTier) : Option InsuranceFund :=
  (Stmt.reply (.findTier tier) d).bind fun t => Stmt.reply (.findFundOfTier t.id asset) d

section Funds

variable {d : ProtectionDb} {asset : String} {tier tier' : FundTier} {f f' : InsuranceFund} {k : ℕ}

theorem map_id_findFundOfTier (d : ProtectionDb) (tierId : ℕ) (asset : String) :
    (Stmt.reply (.findFundOfTier tierId asset) d).map (·.id) =
      (d.layout.funds.find? fun p => p.2.1 = tierId ∧ p.2.2 = asset).map (·.1) := by
  simp only [ProtectionDb.layout, List.find?_map, Option.map_map]
  rfl

theorem map_id_fundOf (d : ProtectionDb) (asset : String) (tier : FundTier) :
    (fundOf d asset tier).map (·.id) = d.layout.fundId asset tier := by
  unfold fundOf Layout.fundId
  rw [Option.map_bind]
  exact congrArg _ (funext fun t => map_id_findFundOfTier d t.id asset)

theorem fundOf_eq_some : fundOf d asset tier = some f ↔
    ∃ t, Stmt.reply (.findTier tier) d = some t ∧
      Stmt.reply (.findFundOfTier t.id asset) d = some f :=
  Option.bind_eq_some_iff

theorem mem_of_fundOf (h : fundOf d asset tier = some f) : f ∈ d.funds.rows := by
  obtain ⟨t, -, hf⟩ := fundOf_eq_some.mp h
  exact List.mem_of_find?_eq_some hf

/-- Different tiers have different funds. -/
theorem tier_eq_of_fundOf (h : fundOf d asset tier = some f) (h' : fundOf d asset tier' = some f')
    (hid : f.id = f'.id) : tier = tier' := by
  have hff : f = f' := Table.eq_of_key_eq (mem_of_fundOf h) (mem_of_fundOf h') hid
  subst hff
  obtain ⟨t, ht, hf⟩ := fundOf_eq_some.mp h
  obtain ⟨t', ht', hf'⟩ := fundOf_eq_some.mp h'
  have htier : f.tierId = t.id ∧ f.asset = asset := by simpa using List.find?_some hf
  have htier' : f.tierId = t'.id ∧ f.asset = asset := by simpa using List.find?_some hf'
  have hmem : t ∈ d.tiers.rows := List.mem_of_find?_eq_some ht
  have hmem' : t' ∈ d.tiers.rows := List.mem_of_find?_eq_some ht'
  obtain rfl : t = t' := Table.eq_of_key_eq hmem hmem' (htier.1.symm.trans htier'.1)
  have hsame : t.tier = tier := by simpa using List.find?_some ht
  have hsame' : t.tier = tier' := by simpa using List.find?_some ht'
  exact hsame.symm.trans hsame'

theorem tier_eq_of_fundId (h : d.layout.fundId asset tier = some k)
    (h' : d.layout.fundId asset tier' = some k) : tier = tier' := by
  rw [← map_id_fundOf] at h h'
  obtain ⟨f, hf, rfl⟩ := Option.map_eq_some_iff.mp h
  obtain ⟨f', hf', hid⟩ := Option.map_eq_some_iff.mp h'
  exact tier_eq_of_fundOf hf hf' hid.symm

theorem layout_save (h : f.place ∈ d.layout.funds) :
    ({ d with funds := d.funds.save f } : ProtectionDb).layout = d.layout := by
  obtain ⟨old, hold, hplace⟩ := List.mem_map.mp h
  have hid : old.id = f.id := congrArg Prod.fst hplace
  exact congrArg (Layout.mk d.tiers.rows) (Table.map_save_of_eq hold hid hplace.symm)

end Funds

/-- A fund in a place of the layout, and with a nonnegative balance when `N` holds. -/
structure InsuranceFund.Fine (l : Layout) (N : Prop) (f : InsuranceFund) : Prop where
  place : f.place ∈ l.funds
  nonneg : N → 0 ≤ f.balance

/-- The databases of a run: their layout is the initial one, and no balance is negative when `N`
holds. -/
def fundForm (d₀ : ProtectionDb) (N : Prop) : fundSql.WellFormed where
  db d := d.layout = d₀.layout ∧ ∀ f ∈ d.funds.rows, f.Fine d₀.layout N
  write
    | .fund f => f.Fine d₀.layout N
    | _ => True
  stmt
    | .saveFund f => f.Fine d₀.layout N
    | .credit _ amount => N → 0 ≤ amount
    | _ => True
  db_apply := by
    intro w d ⟨hlayout, hfunds⟩ hw
    cases w with
    | fund f =>
      refine ⟨(layout_save (hlayout ▸ hw.place)).trans hlayout, fun f' hf' => ?_⟩
      rcases Table.mem_save.mp hf' with rfl | ⟨hf', -⟩
      · exact hw
      · exact hfunds f' hf'
    | transaction t => exact ⟨hlayout, hfunds⟩
    | liquidation e => exact ⟨hlayout, hfunds⟩
  write_of_mem := by
    intro c d w ⟨_, hfunds⟩ hc hw
    cases c with
    | debit id amount =>
      cases hd : debited d id amount with
      | none => simp [fundSql, Stmt.writes, hd] at hw
      | some f =>
        obtain rfl : w = .fund { f with balance := f.balance - amount } := by
          simpa [fundSql, Stmt.writes, hd] using hw
        obtain ⟨hf, hle⟩ := debited_eq_some.mp hd
        exact ⟨(hfunds f (Table.mem_of_find hf)).place, fun _ => sub_nonneg.mpr hle⟩
    | credit id amount =>
      cases hd : d.funds.find id with
      | none => simp [fundSql, Stmt.writes, hd] at hw
      | some f =>
        obtain rfl : w = .fund { f with balance := f.balance + amount } := by
          simpa [fundSql, Stmt.writes, hd] using hw
        have hf := hfunds f (Table.mem_of_find hd)
        exact ⟨hf.place, fun hN => add_nonneg (hf.nonneg hN) (hc hN)⟩
    | insertTransaction t =>
      obtain rfl : w = .transaction t := by simpa [fundSql, Stmt.writes] using hw
      trivial
    | insertLiquidation e =>
      obtain rfl : w = .liquidation e := by simpa [fundSql, Stmt.writes] using hw
      trivial
    | saveFund f =>
      obtain rfl : w = .fund f := by simpa [fundSql, Stmt.writes] using hw
      exact hc
    | findTier | findFundOfTier | findFund => simp [fundSql, Stmt.writes] at hw

/-- A fund as it was read: before the transaction, or after a refused debit. -/
inductive Reading : Type
  | advisory (fund : InsuranceFund)
  | fresh (fund : InsuranceFund)

/-- The fund that was read. -/
def Reading.fund : Reading → InsuranceFund
  | .advisory f => f
  | .fresh f => f

/-- What the fund may hold at the debit: no more than was read before the transaction, and exactly
what was read after a refused debit. -/
def Reading.Allows : Reading → ℚ → Prop
  | .advisory f, balance => balance ≤ f.balance
  | .fresh f, balance => balance = f.balance

instance : (r : Reading) → (balance : ℚ) → Decidable (r.Allows balance)
  | .advisory _, _ => inferInstanceAs (Decidable (_ ≤ _))
  | .fresh _, _ => inferInstanceAs (Decidable (_ = _))

theorem Reading.Allows.le {r : Reading} {balance : ℚ} (h : r.Allows balance) :
    balance ≤ r.fund.balance := by
  cases r with
  | advisory f => exact h
  | fresh f => exact le_of_eq h

/-- An executed command of the services. -/
abbrev FundEvent (ι : Type) := ServerEvent Stmt.Reply ProtectionDb Write ℕ Outcome ι

/-- The server with the commands it executed. -/
abbrev WatchedFunds (ι : Type) := Watched Stmt.Reply ProtectionDb Write ℕ Outcome ι

section Readings

variable {ι : Type}

/-- The fund that the command read. -/
def reading : FundEvent ι → Option Reading
  | ⟨_, _, .auto (.findFundOfTier _ _), found⟩ => found.map .advisory
  | ⟨_, _, .stmt (.findFund _), found⟩ => found.map .fresh
  | _ => none

variable [DecidableEq ι]

/-- What the session has read of each fund last. -/
def reads (i : ι) (s : WatchedFunds ι) (k : ℕ) : Option Reading :=
  (own i s.2).findSome? fun e => (reading e).filter (·.fund.id = k)

variable {i : ι} {s s' : WatchedFunds ι} {t b : FundServer ι} {c : Cmd Stmt Outcome}
  {a : Cmd.Reply Stmt.Reply Outcome c}

theorem reads_of_later (h : Later i s s') : reads i s' = reads i s := by
  funext k
  unfold reads
  rw [h.2.own]

theorem reads_cons_of_none (hr : reading (⟨i, b, c, a⟩ : FundEvent ι) = none) :
    reads i (t, ⟨i, b, c, a⟩ :: s.2) = reads i s := by
  funext k
  simp [reads, hr]

theorem reads_cons_of_some {r : Reading}
    (hr : reading (⟨i, b, c, a⟩ : FundEvent ι) = some r) :
    reads i (t, ⟨i, b, c, a⟩ :: s.2) =
      Function.update (reads i s) r.fund.id (some r) := by
  funext k
  by_cases hk : k = r.fund.id
  · subst hk
    simp [reads, hr]
  · have hne : ¬ r.fund.id = k := fun h => hk h.symm
    simp [reads, hr, hne, hk]

/-- The condition on the steps. At a debit, the fund holds no more than what the session has
read of it before its transaction, and exactly what it has read of it after a refused debit. When
the walk has ended, no fund holds more than what the session has read of it last. -/
def Steady (i : ι) : Cmd Stmt Outcome → WatchedFunds ι → Prop
  | .stmt (.debit k _), s =>
    ∀ f ∈ (s.1.view fundSql i).funds.find k, ∀ r ∈ reads i s k, r.Allows f.balance
  | .stmt (.insertLiquidation _), s =>
    ∀ f ∈ (s.1.view fundSql i).funds.rows, ∀ r ∈ reads i s f.id, f.balance ≤ r.fund.balance
  | _, _ => True

instance (i : ι) : (cmd : Cmd Stmt Outcome) → (s : WatchedFunds ι) → Decidable (Steady i cmd s)
  | .stmt (.debit k _), s =>
    inferInstanceAs (Decidable (∀ f ∈ (s.1.view fundSql i).funds.find k, ∀ r ∈ reads i s k,
      r.Allows f.balance))
  | .stmt (.insertLiquidation _), s =>
    inferInstanceAs (Decidable (∀ f ∈ (s.1.view fundSql i).funds.rows, ∀ r ∈ reads i s f.id,
      f.balance ≤ r.fund.balance))
  | .stmt (.findTier _), _ | .stmt (.findFundOfTier _ _), _ | .stmt (.findFund _), _
  | .stmt (.credit _ _), _ | .stmt (.insertTransaction _), _ | .stmt (.saveFund _), _
  | .auto _, _ | .commit _, _ | .rollback, _ => isTrue trivial

end Readings

end Protection
