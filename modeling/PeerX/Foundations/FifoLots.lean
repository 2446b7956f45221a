import Mathlib.Algebra.BigOperators.Group.List.Basic
import Mathlib.Algebra.Order.BigOperators.Group.List
import Mathlib.Algebra.Order.Group.MinMax
import Mathlib.Data.List.Forall2
import Mathlib.Tactic.Abel

/-!
# Lots, closed first in, first out

A lot is what remains of an entry. An amount closes lots in their order: of each lot it takes what
remains, or what it still has itself. The last lot that it closes may remain in part.

## Main results

* `exists_closed_eq_take`: the oldest lots are closed, as many as the amount reaches
* `total_rest`: what is taken from the lots is taken from the amount
* `left_eq_zero_or`: something is left of the amount only if no lot remains
* `sublist_rest`: the lots that remain keep their order, and what remains of each does not grow
-/

namespace FifoLots

variable {δ R : Type}

/-- A lot: what remains of an entry. -/
structure Lot (δ R : Type) where
  entry : δ
  remaining : R
deriving DecidableEq

variable [AddCommGroup R]

/-- What remains of the lots. -/
def total (lots : List (Lot δ R)) : R := (lots.map Lot.remaining).sum

/-- The outcome: the lots that were closed, the rest of the amount, and the lots that remain. -/
structure Closing (δ R : Type) where
  closed : List (Lot δ R)
  left : R
  rest : List (Lot δ R)

variable [LinearOrder R]

/-- An amount closes lots, the oldest first. -/
def close : R → List (Lot δ R) → Closing δ R
  | amount, [] => ⟨[], amount, []⟩
  | amount, lot :: lots =>
    if 0 < amount then
      let taken := min lot.remaining amount
      let closing := close (amount - taken) lots
      { closing with
        closed := lot :: closing.closed
        rest :=
          if 0 < lot.remaining - taken then { lot with remaining := lot.remaining - taken } :: closing.rest
          else closing.rest }
    else ⟨[], amount, lot :: lots⟩

section

variable {amount : R} {lot : Lot δ R} {lots : List (Lot δ R)}

omit [LinearOrder R] in
@[simp] theorem total_nil : total ([] : List (Lot δ R)) = 0 := rfl

omit [LinearOrder R] in
@[simp] theorem total_cons (lot : Lot δ R) (lots : List (Lot δ R)) :
    total (lot :: lots) = lot.remaining + total lots := by
  simp [total]

theorem close_of_nonpos (h : amount ≤ 0) (lots : List (Lot δ R)) : close amount lots = ⟨[], amount, lots⟩ := by
  cases lots with
  | nil => rfl
  | cons lot lots => rw [close, if_neg (not_lt.mpr h)]

variable [IsOrderedAddMonoid R]

/-- **What is taken from the lots is taken from the amount.** -/
theorem total_rest (amount : R) (lots : List (Lot δ R)) :
    total (close amount lots).rest = total lots - (amount - (close amount lots).left) := by
  induction lots generalizing amount with
  | nil => simp [close]
  | cons lot lots ih =>
    rw [close]
    split
    · -- a lot that does not remain was taken as a whole
      have hle : 0 ≤ lot.remaining - min lot.remaining amount := sub_nonneg.mpr (min_le_left _ _)
      dsimp only
      split
      · rw [total_cons, ih, total_cons]
        dsimp only
        abel
      next hzero =>
        have hwhole : lot.remaining = min lot.remaining amount := sub_eq_zero.mp (le_antisymm (not_lt.mp hzero) hle)
        have htotal : total (lot :: lots) = min lot.remaining amount + total lots := by rw [total_cons, ← hwhole]
        rw [ih, htotal]
        abel
    · simp

theorem left_nonneg (h : 0 ≤ amount) : 0 ≤ (close amount lots).left := by
  induction lots generalizing amount with
  | nil => exact h
  | cons lot lots ih =>
    rw [close]
    split
    · exact ih (sub_nonneg.mpr (min_le_right _ _))
    · exact h

/-- **Something is left of the amount only if no lot remains.** -/
theorem left_eq_zero_or (h : 0 ≤ amount) : (close amount lots).left = 0 ∨ (close amount lots).rest = [] := by
  induction lots generalizing amount with
  | nil => exact .inr rfl
  | cons lot lots ih =>
    rw [close]
    split
    next =>
      dsimp only
      split
      next hremains =>
        -- the lot was not taken as a whole, so the amount was
        have htaken : min lot.remaining amount = amount := by
          rcases min_choice lot.remaining amount with hlot | hamount
          · rw [hlot, sub_self] at hremains
            exact absurd hremains (lt_irrefl 0)
          · exact hamount
        left
        rw [htaken, sub_self, close_of_nonpos le_rfl]
      next => exact ih (sub_nonneg.mpr (min_le_right _ _))
    next hnot => exact .inl (le_antisymm (not_lt.mp hnot) h)

/-- **The oldest lots are closed**, as many as the amount reaches. -/
theorem exists_closed_eq_take (amount : R) (hlots : ∀ lot ∈ lots, 0 < lot.remaining) :
    ∃ n ≤ lots.length, (close amount lots).closed = lots.take n ∧ (∀ k < n, total (lots.take k) < amount) ∧
      (n < lots.length → amount ≤ total (lots.take n)) := by
  induction lots generalizing amount with
  | nil => exact ⟨0, le_rfl, rfl, by simp, by simp⟩
  | cons lot lots ih =>
    obtain ⟨hlot, hrest⟩ := List.forall_mem_cons.mp hlots
    rw [close]
    split
    next hpos =>
      obtain ⟨n, hn, hclosed, hreached, hends⟩ := ih (amount - min lot.remaining amount) hrest
      refine ⟨n + 1, Nat.succ_le_succ hn, congrArg (lot :: ·) hclosed, fun k hk => ?_, fun hlt => ?_⟩
      · cases k with
        | zero => exact hpos
        | succ k =>
          -- what is left for the later lots is positive, so the first one was taken as a whole
          have hk' := hreached k (Nat.lt_of_succ_lt_succ hk)
          rw [List.take_succ_cons, total_cons]
          rcases min_choice lot.remaining amount with hmin | hmin
          · rw [hmin] at hk'
            exact lt_sub_iff_add_lt'.mp hk'
          · rw [hmin, sub_self] at hk'
            have hnonneg : 0 ≤ total (lots.take k) := by
              refine List.sum_nonneg fun x hx => ?_
              obtain ⟨other, hother, rfl⟩ := List.mem_map.mp hx
              exact (hrest other (List.mem_of_mem_take hother)).le
            exact absurd hk' (not_lt.mpr hnonneg)
      · have hle := hends (Nat.lt_of_succ_lt_succ hlt)
        rw [List.take_succ_cons, total_cons]
        exact (sub_le_iff_le_add'.mp hle).trans (by gcongr; exact min_le_left _ _)
    next hnot => exact ⟨0, Nat.zero_le _, rfl, by simp, fun _ => by simpa using hnot⟩

omit [IsOrderedAddMonoid R] in
theorem pos_of_mem_rest (hlots : ∀ lot ∈ lots, 0 < lot.remaining) :
    ∀ lot ∈ (close amount lots).rest, 0 < lot.remaining := by
  induction lots generalizing amount with
  | nil => exact hlots
  | cons lot lots ih =>
    obtain ⟨-, hrest⟩ := List.forall_mem_cons.mp hlots
    rw [close]
    split
    next =>
      dsimp only
      split
      next hremains => exact List.forall_mem_cons.mpr ⟨hremains, ih hrest⟩
      next => exact ih hrest
    next => exact hlots

omit [IsOrderedAddMonoid R] in
theorem exists_entry_of_mem_rest (h : lot ∈ (close amount lots).rest) : ∃ earlier ∈ lots, earlier.entry = lot.entry := by
  induction lots generalizing amount with
  | nil => cases h
  | cons first lots ih =>
    rw [close] at h
    split at h
    next =>
      dsimp only at h
      split at h
      next =>
        rcases List.mem_cons.mp h with rfl | h
        · exact ⟨first, List.mem_cons_self, rfl⟩
        · obtain ⟨earlier, hmem, hentry⟩ := ih h
          exact ⟨earlier, List.mem_cons_of_mem _ hmem, hentry⟩
      next =>
        obtain ⟨earlier, hmem, hentry⟩ := ih h
        exact ⟨earlier, List.mem_cons_of_mem _ hmem, hentry⟩
    next => exact ⟨lot, h, rfl⟩

/-- **The lots that remain keep their order**, and what remains of each does not grow. -/
theorem sublist_rest (h : 0 ≤ amount) (hlots : ∀ lot ∈ lots, 0 < lot.remaining) :
    List.SublistForall₂ (fun later earlier => later.entry = earlier.entry ∧ later.remaining ≤ earlier.remaining)
      (close amount lots).rest lots := by
  induction lots generalizing amount with
  | nil => exact .nil
  | cons lot lots ih =>
    obtain ⟨hlot, hrest⟩ := List.forall_mem_cons.mp hlots
    have hsame : ∀ l : List (Lot δ R),
        List.SublistForall₂ (fun later earlier => later.entry = earlier.entry ∧ later.remaining ≤ earlier.remaining) l l :=
      fun l => List.sublistForall₂_iff.mpr ⟨l, List.forall₂_same.mpr fun _ _ => ⟨rfl, le_rfl⟩, .refl l⟩
    rw [close]
    split
    next hpos =>
      have hamount : 0 ≤ amount - min lot.remaining amount := sub_nonneg.mpr (min_le_right _ _)
      dsimp only
      split
      next => exact .cons ⟨rfl, sub_le_self _ (le_min hlot.le hpos.le)⟩ (ih hamount hrest)
      next => exact .cons_right (ih hamount hrest)
    next => exact hsame _

end

end FifoLots
