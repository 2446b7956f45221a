import Mathlib.Algebra.Order.Field.Basic
import Mathlib.Tactic.Linarith
import Mathlib.Tactic.Ring

/-!
# Metering

A meter holds tokens up to a capacity, and gains them at a rate. Each request that it allows takes
one token. When the requests come in the order of their times, a meter allows at most a full load in
any interval, and what is gained in it.
-/

namespace Metering

variable {𝕜 : Type} [Field 𝕜] [LinearOrder 𝕜]

/-- The tokens that an answer takes. -/
def taken (allowed : Bool) : 𝕜 := if allowed then 1 else 0

/-- Requests at a meter, with their answers. It holds tokens since the time `last`; what it has
after a request and what the request takes are within the capacity, and within what it had and has
gained since. -/
inductive Metered (capacity rate : 𝕜) : 𝕜 → 𝕜 → List (𝕜 × Bool) → Prop
  | nil {tokens last : 𝕜} : Metered capacity rate tokens last []
  | cons {tokens last tokens' now : 𝕜} {allowed : Bool} {requests : List (𝕜 × Bool)} (hlast : last ≤ now)
      (hnonneg : 0 ≤ tokens') (hcapacity : tokens' + taken allowed ≤ capacity)
      (hrate : tokens' + taken allowed ≤ tokens + rate * (now - last))
      (hrest : Metered capacity rate tokens' now requests) :
      Metered capacity rate tokens last ((now, allowed) :: requests)

/-- The allowed requests of an interval. -/
def allowedWithin (lo hi : 𝕜) (requests : List (𝕜 × Bool)) : ℕ :=
  requests.countP fun request => request.2 ∧ lo ≤ request.1 ∧ request.1 ≤ hi

variable {capacity rate tokens last now lo hi : 𝕜} {allowed : Bool} {requests : List (𝕜 × Bool)}

theorem allowedWithin_cons_of_mem (hlo : lo ≤ now) (hhi : now ≤ hi) :
    (allowedWithin lo hi ((now, allowed) :: requests) : 𝕜) = allowedWithin lo hi requests + taken allowed := by
  cases allowed with
  | true => simp [allowedWithin, taken, hlo, hhi]
  | false => simp [allowedWithin, taken]

omit [Field 𝕜] in
theorem allowedWithin_cons_of_lt (hlo : now < lo) :
    allowedWithin lo hi ((now, allowed) :: requests) = allowedWithin lo hi requests := by
  simp [allowedWithin, not_le.mpr hlo]

theorem Metered.allowedWithin_eq_zero (h : Metered capacity rate tokens last requests) (hhi : hi < last) :
    allowedWithin lo hi requests = 0 := by
  induction h with
  | nil => rfl
  | cons hlast _ _ _ _ ih =>
    have hnow := hhi.trans_le hlast
    have hrest := ih hnow
    rw [allowedWithin] at hrest ⊢
    rw [List.countP_cons, hrest]
    simp [not_le.mpr hnow]

variable [IsStrictOrderedRing 𝕜]

/-- The allowed requests of an interval. A meter that has been read in the interval has its
tokens, and one that has been read before is full at most. -/
theorem Metered.allowedWithin_le (hrate : 0 ≤ rate) (h : Metered capacity rate tokens last requests)
    (hcapacity : 0 ≤ capacity) (htokens : 0 ≤ tokens) (hhi : lo ≤ hi) (hlast : last ≤ hi) :
    (allowedWithin lo hi requests : 𝕜) ≤
      (if lo ≤ last then tokens + rate * (hi - last) else capacity + rate * (hi - lo)) := by
  induction h with
  | nil =>
    have hgain : 0 ≤ rate * (hi - lo) := mul_nonneg hrate (by linarith)
    have hgain' := mul_nonneg hrate (sub_nonneg.mpr hlast)
    simp only [allowedWithin, List.countP_nil, Nat.cast_zero]
    split <;> linarith
  | @cons tokens last tokens' now allowed requests hnow hnonneg hcap hgained hrest ih =>
    have hgain : rate * (hi - last) = rate * (now - last) + rate * (hi - now) := by ring
    rcases lt_or_ge hi now with hafter | hbefore
    · -- the interval is over
      have hnone : allowedWithin lo hi ((now, allowed) :: requests) = 0 := by
        have hzero : allowedWithin lo hi requests = 0 := hrest.allowedWithin_eq_zero hafter
        rw [allowedWithin] at hzero ⊢
        rw [List.countP_cons, hzero]
        simp [not_le.mpr hafter]
      have hgain : 0 ≤ rate * (hi - lo) := mul_nonneg hrate (by linarith)
      have hgain' := mul_nonneg hrate (sub_nonneg.mpr hlast)
      rw [hnone, Nat.cast_zero]
      split <;> linarith
    have hih := ih hnonneg hbefore
    rcases lt_or_ge now lo with hearly | hin
    · -- the interval has not begun
      have hold : ¬ lo ≤ last := not_le.mpr (hnow.trans_lt hearly)
      rw [if_neg (not_le.mpr hearly)] at hih
      rwa [allowedWithin_cons_of_lt hearly, if_neg hold]
    · rw [if_pos hin] at hih
      rw [allowedWithin_cons_of_mem hin hbefore]
      split
      · linarith
      · have hgain : rate * (hi - now) ≤ rate * (hi - lo) := mul_le_mul_of_nonneg_left (by linarith) hrate
        linarith

/-- The bound for any interval, when the meter is not more than full at first. -/
theorem Metered.allowedWithin_le_full (hrate : 0 ≤ rate) (h : Metered capacity rate tokens last requests)
    (hcapacity : 0 ≤ capacity) (htokens : 0 ≤ tokens) (hfull : tokens ≤ capacity) (hhi : lo ≤ hi) :
    (allowedWithin lo hi requests : 𝕜) ≤ capacity + rate * (hi - lo) := by
  have hgain : 0 ≤ rate * (hi - lo) := mul_nonneg hrate (sub_nonneg.mpr hhi)
  rcases lt_or_ge hi last with hafter | hbefore
  · rw [h.allowedWithin_eq_zero hafter, Nat.cast_zero]
    linarith
  · have hbound := h.allowedWithin_le hrate hcapacity htokens hhi hbefore
    split at hbound
    next hlo =>
      have hless : rate * (hi - last) ≤ rate * (hi - lo) := mul_le_mul_of_nonneg_left (by linarith) hrate
      linarith
    next => exact hbound

end Metering
