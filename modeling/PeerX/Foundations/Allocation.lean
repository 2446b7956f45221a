import Mathlib.Algebra.Order.BigOperators.Group.List
import Mathlib.Algebra.Order.Group.Defs

/-!
# Greedy allocation

A demand is met by sources in their order, each of which gives what it has or what is still needed.
An empty source gives nothing, and is asked exactly when the sources before it do not suffice.
-/

namespace Allocation

variable {α K : Type} [AddCommGroup K] [LinearOrder K]

/-- The greedy allocation. -/
def allocate (capacity : α → K) : K → List α → List (α × K)
  | _, [] => []
  | demand, source :: sources =>
    if 0 < demand then
      (source, min demand (capacity source)) :: allocate capacity (demand - min demand (capacity source)) sources
    else []

/-- No empty source is asked: those before it suffice. -/
def EmptyUnasked (capacity : α → K) (demand : K) (sources : List α) : Prop :=
  ∀ before source after, sources = before ++ source :: after → capacity source = 0 → demand ≤ (before.map capacity).sum

variable {capacity : α → K} {demand : K} {source : α} {sources : List α}

theorem allocate_of_nonpos (h : demand ≤ 0) : allocate capacity demand sources = [] := by
  cases sources with
  | nil => rfl
  | cons source sources => rw [allocate, if_neg (not_lt.mpr h)]

theorem allocate_cons (h : 0 < demand) : allocate capacity demand (source :: sources) =
    (source, min demand (capacity source)) :: allocate capacity (demand - min demand (capacity source)) sources := by
  rw [allocate, if_pos h]

theorem emptyUnasked_of_nonpos [IsOrderedAddMonoid K] (hcapacity : ∀ a ∈ sources, 0 ≤ capacity a) (h : demand ≤ 0) :
    EmptyUnasked capacity demand sources := by
  rintro before source after rfl -
  refine h.trans (List.sum_nonneg fun x hx => ?_)
  obtain ⟨a, ha, rfl⟩ := List.mem_map.mp hx
  exact hcapacity a (List.mem_append_left _ ha)

/-- The first source is not empty, and the others are asked for the rest. -/
theorem emptyUnasked_cons_iff [IsOrderedAddMonoid K] (hcapacity : ∀ a ∈ source :: sources, 0 ≤ capacity a)
    (h : 0 < demand) : EmptyUnasked capacity demand (source :: sources) ↔
      0 < capacity source ∧ EmptyUnasked capacity (demand - min demand (capacity source)) sources := by
  obtain ⟨hsource, hsources⟩ := List.forall_mem_cons.mp hcapacity
  constructor
  · intro hunasked
    constructor
    · refine lt_of_le_of_ne hsource fun hempty => ?_
      exact absurd (hunasked [] source sources rfl hempty.symm) (not_le.mpr h)
    · rintro before other after rfl hempty
      rcases le_total demand (capacity source) with hle | hle
      · -- the first source suffices
        rw [min_eq_left hle, sub_self]
        refine List.sum_nonneg fun x hx => ?_
        obtain ⟨a, ha, rfl⟩ := List.mem_map.mp hx
        exact hsources a (List.mem_append_left _ ha)
      · have hall := hunasked (source :: before) other after rfl hempty
        rw [List.map_cons, List.sum_cons] at hall
        rw [min_eq_right hle]
        exact sub_le_iff_le_add'.mpr hall
  · rintro ⟨hpos, hunasked⟩ before other after heq hempty
    cases before with
    | nil =>
      obtain ⟨rfl, -⟩ := List.cons.inj heq
      exact absurd hempty hpos.ne'
    | cons first before =>
      obtain ⟨rfl, hrest⟩ := List.cons.inj heq
      have hothers := hunasked before other after hrest hempty
      rw [List.map_cons, List.sum_cons]
      refine (sub_le_iff_le_add'.mp hothers).trans ?_
      exact add_le_add_left (min_le_right _ _) _

/-- Every source that is asked gives something exactly when no empty one is asked. -/
theorem allocate_pos_iff [IsOrderedAddMonoid K] (hcapacity : ∀ a ∈ sources, 0 ≤ capacity a) :
    (∀ part ∈ allocate capacity demand sources, 0 < part.2) ↔ EmptyUnasked capacity demand sources := by
  induction sources generalizing demand with
  | nil => exact iff_of_true (fun _ hpart => by cases hpart) fun before _ _ heq => by cases before <;> cases heq
  | cons source sources ih =>
    rcases le_or_gt demand 0 with hdemand | hdemand
    · rw [allocate_of_nonpos hdemand]
      exact iff_of_true (fun _ hpart => by cases hpart) (emptyUnasked_of_nonpos hcapacity hdemand)
    · rw [allocate_cons hdemand, List.forall_mem_cons, emptyUnasked_cons_iff hcapacity hdemand,
        ih (List.forall_mem_cons.mp hcapacity).2, lt_min_iff]
      exact and_congr_left fun _ => and_iff_right hdemand

/-- Empty sources do not matter when none is asked. -/
theorem allocate_filter [IsOrderedAddMonoid K] (hcapacity : ∀ a ∈ sources, 0 ≤ capacity a)
    (h : EmptyUnasked capacity demand sources) :
    allocate capacity demand (sources.filter fun a => 0 < capacity a) = allocate capacity demand sources := by
  induction sources generalizing demand with
  | nil => rfl
  | cons source sources ih =>
    rcases le_or_gt demand 0 with hdemand | hdemand
    · rw [allocate_of_nonpos hdemand, allocate_of_nonpos hdemand]
    · obtain ⟨hpos, hrest⟩ := (emptyUnasked_cons_iff hcapacity hdemand).mp h
      rw [List.filter_cons, if_pos (decide_eq_true hpos), allocate_cons hdemand, allocate_cons hdemand,
        ih (List.forall_mem_cons.mp hcapacity).2 hrest]

end Allocation
