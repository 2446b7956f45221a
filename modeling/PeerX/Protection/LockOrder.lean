import PeerX.Protection.Sessions

/-!
# Protection: deadlocks of coverages

A debit locks the row of its fund until the transaction ends, and the funds are debited in the order
the tiers are walked. Coverages that walk the tiers of an asset in one order never wait for each
other in a cycle. The preferred tier is walked first, so two coverages with different preferred
tiers walk in different orders, and can.
-/

namespace Protection

open Relational Concurrency

variable {ι : Type}

/-- The coverages of a positive shortfall in the same asset walk the tiers in the same order. -/
def SameOrder (calls : ι → Call) : Prop :=
  ∀ i j u s p a t u' s' p' t', calls i = .cover u s p a t → calls j = .cover u' s' p' a t' →
    0 < s → 0 < s' → tiersToTry t = tiersToTry t'

/-- The order in which the tiers of each asset are walked. -/
theorem SameOrder.exists_order {calls : ι → Call} (h : SameOrder calls) :
    ∃ order : String → List FundTier, ∀ i u s p a t, calls i = .cover u s p a t → 0 < s →
      order a = tiersToTry t := by
  have hasset : ∀ a, ∃ l, ∀ i u s p t, calls i = .cover u s p a t → 0 < s → l = tiersToTry t := by
    intro a
    by_cases hany : ∃ i u s p t, calls i = .cover u s p a t ∧ 0 < s
    · obtain ⟨i, u, s, p, t, hi, hs⟩ := hany
      exact ⟨tiersToTry t, fun j u' s' p' t' hj hs' => h i j u s p a t u' s' p' t' hi hj hs hs'⟩
    · exact ⟨[], fun i u s p t hi hs => absurd ⟨i, u, s, p, t, hi, hs⟩ hany⟩
  choose order horder using hasset
  exact ⟨order, fun i u s p a t hi hs => horder a i u s p t hi hs⟩

/-- The policy of the lock order: the funds of an asset are locked in the order of their tiers. -/
def lockPolicy (d₀ : ProtectionDb) (order : String → List FundTier) : FundPolicy where
  home := d₀
  good _ _ := True
  amountOk _ := True
  coverOk _ := True
  admits _ _ := True
  ordered := True
  order := order
  amountOk_of_cover _ _ := trivial
  coverOk_sub _ _ := trivial
  coverOk_balance _ _ := trivial
  recorded _ _ _ _ _ := trivial
  refreshed _ _ _ _ _ := trivial

variable [DecidableEq ι]

/-- A thread that keeps the lock policy locks in order. -/
theorem inOrder_of_allSafe {π : FundPolicy} (ho : π.ordered) {M : Machine (Cmd Stmt Outcome) _ ι _}
    {Q : ι → Except ProtectionError Unit → FundServer ι → Prop} {c : Serving ι}
    (h : (π.protocol ι).AllSafe M Q c) (i : ι) :
    ∀ k ∈ fundSql.awaited c i, InOrder π.rank c.shared i k := by
  intro k hk
  unfold Dialect.awaited at hk
  split at hk
  · next cmd f hthread => exact (h.pre hthread).1 cmd rfl ho k hk
  · next cmd f hthread =>
    have hclear := (h.pre hthread).2 cmd rfl
    exact .inr fun k' hk' => absurd hk' (hclear.holder k')
  · cases hk

/-- **Coverages that walk the tiers in one order never deadlock**, together with any recorded
transactions and under every schedule. -/
theorem coverages_not_deadlocked {calls : ι → Call} {d₀ : ProtectionDb} (hsame : SameOrder calls)
    {is : List ι} {c : Serving ι}
    (hr : (serving calls d₀).run (fundSql.machine Outcome ι) is = some c) :
    ¬ Deadlocked fundSql c := by
  obtain ⟨order, horder⟩ := hsame.exists_order
  have hgood : ∀ k, (lockPolicy d₀ order).Good k (fundRows.obs k d₀) :=
    fun k => ⟨⟨rfl, rfl, fun f hf => ⟨f, hf, rfl, rfl⟩⟩, trivial⟩
  have hallows : ∀ i, (lockPolicy d₀ order).Allows (calls i) := by
    intro i
    cases hcall : calls i with
    | record fundId type amount options => trivial
    | cover userId shortfallAmount positionId asset preferredTier =>
      exact ⟨trivial, fun _ hs => horder i _ _ _ _ _ hcall hs⟩
  have hadmitted := Config.admitted_of_forall (M := fundSql.machine Outcome ι)
    ((lockPolicy d₀ order).freshSave_of_admits fun _ _ => trivial) is (serving calls d₀)
  exact not_deadlocked_of_inOrder
    (inOrder_of_allSafe trivial (serving_safe hgood hallows hr hadmitted))

/-- Two shortfalls of 2, one of them with a preferred tier. -/
def twoCoverages (preferredTier : Option FundTier) : Bool → Call
  | true => .cover 1 2 none "USDT" none
  | false => .cover 2 2 none "USDT" preferredTier

/-- Both coverages read the funds, and debit their first fund. -/
def oneDebitEach : List Bool :=
  List.replicate 6 true ++ List.replicate 6 false ++ List.replicate 3 true ++ List.replicate 3 false

/-- **Two coverages wait for each other**: the first holds the LOW fund and waits for the MEDIUM
one, the second the other way round. -/
theorem coverages_deadlocked :
    ∃ c, (serving (twoCoverages (some .medium)) (twoFunds 1 1)).run (fundSql.machine Outcome Bool)
      oneDebitEach = some c ∧ Deadlocked fundSql c := by
  have hrun : ((serving (twoCoverages (some .medium)) (twoFunds 1 1)).run
      (fundSql.machine Outcome Bool) oneDebitEach).any (fun c =>
        WaitsFor fundSql c true false ∧ WaitsFor fundSql c false true) := by
    decide +kernel
  obtain ⟨c, hc, hwaits⟩ := (Option.any_eq_true _ _).mp hrun
  obtain ⟨hfirst, hsecond⟩ := of_decide_eq_true hwaits
  exact ⟨c, hc, true, .tail (.single hfirst) hsecond⟩

/-- The same coverages without a preferred tier: the second waits for the first. -/
theorem coverages_not_deadlocked_waiting :
    ∃ c, (serving (twoCoverages none) (twoFunds 1 1)).run (fundSql.machine Outcome Bool)
        (List.replicate 6 true ++ List.replicate 6 false ++ List.replicate 3 true) = some c ∧
      WaitsFor fundSql c false true ∧ ¬ Deadlocked fundSql c := by
  have hrun : ((serving (twoCoverages none) (twoFunds 1 1)).run (fundSql.machine Outcome Bool)
      (List.replicate 6 true ++ List.replicate 6 false ++ List.replicate 3 true)).any (fun c =>
        WaitsFor fundSql c false true) := by
    decide +kernel
  obtain ⟨c, hc, hwaits⟩ := (Option.any_eq_true _ _).mp hrun
  refine ⟨c, hc, of_decide_eq_true hwaits, coverages_not_deadlocked ?_ hc⟩
  rintro (_ | _) (_ | _) _ _ _ _ _ _ _ _ _ ⟨⟩ ⟨⟩ _ _ <;> rfl

end Protection
