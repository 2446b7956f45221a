import Mathlib.Data.List.Nodup
import Mathlib.Data.List.Induction

/-!
# Grouping

A map that keeps the order of insertion groups the elements of a list: a group for each key, in the
order of the first elements, and the elements of a group in the order of the list.

## Main results

* `mem_grouped`: a group holds the elements with its key
* `nodup_grouped`: the keys of the groups are distinct
* `perm_grouped`: each element is in one group
* `filter_flatMap_grouped`: the elements with one key stay in their order
-/

namespace Grouping

variable {α κ : Type} [DecidableEq κ]

/-- An element is added to its group. -/
def addTo (k : κ) (x : α) : List (κ × List α) → List (κ × List α)
  | [] => [(k, [x])]
  | (k', xs) :: groups => if k' = k then (k', xs ++ [x]) :: groups else (k', xs) :: addTo k x groups

/-- The groups of a list. -/
def grouped (f : α → κ) (l : List α) : List (κ × List α) := l.foldl (fun groups x => addTo (f x) x groups) []

variable {f : α → κ} {l : List α} {k : κ} {x : α} {groups : List (κ × List α)}

theorem grouped_append_singleton (f : α → κ) (l : List α) (x : α) :
    grouped f (l ++ [x]) = addTo (f x) x (grouped f l) := by
  simp [grouped]

theorem map_fst_addTo : (addTo k x groups).map Prod.fst =
    if k ∈ groups.map Prod.fst then groups.map Prod.fst else groups.map Prod.fst ++ [k] := by
  induction groups with
  | nil => simp [addTo]
  | cons group groups ih =>
    by_cases hk : group.1 = k
    · simp [addTo, hk]
    · have hk' : k ≠ group.1 := fun h => hk h.symm
      simp only [addTo, if_neg hk, List.map_cons, ih, List.mem_cons, hk', false_or]
      split <;> simp

theorem mem_keys_grouped : k ∈ (grouped f l).map Prod.fst ↔ k ∈ l.map f := by
  induction l using List.reverseRecOn with
  | nil => simp [grouped]
  | append_singleton l x ih =>
    rw [grouped_append_singleton, map_fst_addTo, List.map_append, List.mem_append]
    split
    next hmem =>
      rw [ih]
      constructor
      · exact .inl
      · rintro (hk | hk)
        · exact hk
        · obtain rfl := List.mem_singleton.mp hk
          exact ih.mp hmem
    next hmem => rw [List.mem_append, ih, List.map_singleton]

/-- **The keys of the groups are distinct.** -/
theorem nodup_grouped (f : α → κ) (l : List α) : ((grouped f l).map Prod.fst).Nodup := by
  induction l using List.reverseRecOn with
  | nil => simp [grouped]
  | append_singleton l x ih =>
    rw [grouped_append_singleton, map_fst_addTo]
    split
    next => exact ih
    next hmem =>
      refine List.nodup_append.mpr ⟨ih, List.nodup_singleton _, ?_⟩
      intro a ha b hb hab
      obtain rfl := List.mem_singleton.mp hb
      exact hmem (hab ▸ ha)

theorem mem_addTo (hnodup : (groups.map Prod.fst).Nodup) {k' : κ} {xs : List α} (h : (k', xs) ∈ addTo k x groups) :
    k' ≠ k ∧ (k', xs) ∈ groups ∨
      k' = k ∧ ((∃ ys, (k, ys) ∈ groups ∧ xs = ys ++ [x]) ∨ k ∉ groups.map Prod.fst ∧ xs = [x]) := by
  induction groups with
  | nil =>
    simp only [addTo, List.mem_singleton, Prod.mk.injEq] at h
    exact .inr ⟨h.1, .inr ⟨by simp, h.2⟩⟩
  | cons group groups ih =>
    obtain ⟨k₀, xs₀⟩ := group
    obtain ⟨hk₀, hnodup⟩ := List.nodup_cons.mp hnodup
    simp only [addTo] at h
    split at h
    next heq =>
      subst heq
      rcases List.mem_cons.mp h with hfirst | hmem
      · obtain ⟨rfl, rfl⟩ := Prod.mk.inj hfirst
        exact .inr ⟨rfl, .inl ⟨xs₀, List.mem_cons_self, rfl⟩⟩
      · refine .inl ⟨?_, List.mem_cons_of_mem _ hmem⟩
        rintro rfl
        exact hk₀ (List.mem_map.mpr ⟨_, hmem, rfl⟩)
    next hne =>
      rcases List.mem_cons.mp h with h | h
      · obtain ⟨rfl, rfl⟩ := Prod.mk.inj h
        exact .inl ⟨hne, List.mem_cons_self⟩
      · rcases ih hnodup h with ⟨hk, hmem⟩ | ⟨rfl, ⟨ys, hys, hxs⟩ | ⟨hk, hxs⟩⟩
        · exact .inl ⟨hk, List.mem_cons_of_mem _ hmem⟩
        · exact .inr ⟨rfl, .inl ⟨ys, List.mem_cons_of_mem _ hys, hxs⟩⟩
        · refine .inr ⟨rfl, .inr ⟨?_, hxs⟩⟩
          simp only [List.map_cons, List.mem_cons, not_or]
          exact ⟨fun h => hne h.symm, hk⟩

/-- **A group holds the elements with its key.** -/
theorem mem_grouped {xs : List α} (h : (k, xs) ∈ grouped f l) : xs = l.filter fun x => f x = k := by
  induction l using List.reverseRecOn generalizing xs with
  | nil => simp [grouped] at h
  | append_singleton l x ih =>
    rw [grouped_append_singleton] at h
    rw [List.filter_append]
    rcases mem_addTo (nodup_grouped f l) h with ⟨hne, hmem⟩ | ⟨rfl, ⟨ys, hys, rfl⟩ | ⟨hk, rfl⟩⟩
    · rw [ih hmem]
      simp [Ne.symm hne]
    · rw [ih hys]
      simp
    · have hnone : l.filter (fun y => f y = f x) = [] := by
        refine List.filter_eq_nil_iff.mpr fun y hy => ?_
        simp only [decide_eq_true_eq]
        exact fun heq => hk (mem_keys_grouped.mpr (heq ▸ List.mem_map_of_mem hy))
      rw [hnone]
      simp

/-- **Each element is in one group.** -/
theorem perm_grouped (f : α → κ) (l : List α) : ((grouped f l).flatMap Prod.snd).Perm l := by
  have hadd : ∀ (k : κ) (x : α) (groups : List (κ × List α)),
      ((addTo k x groups).flatMap Prod.snd).Perm (groups.flatMap Prod.snd ++ [x]) := by
    intro k x groups
    induction groups with
    | nil => simp [addTo]
    | cons group groups ih =>
      rw [addTo]
      split
      · simp only [List.flatMap_cons, List.append_assoc]
        exact List.perm_append_comm.append_left _
      · simp only [List.flatMap_cons, List.append_assoc]
        exact ih.append_left _
  induction l using List.reverseRecOn with
  | nil => simp [grouped]
  | append_singleton l x ih =>
    rw [grouped_append_singleton]
    exact (hadd (f x) x _).trans (ih.append_right [x])

/-- The elements with one key, in groups with distinct keys. -/
theorem filter_flatMap_of_nodup (hnodup : (groups.map Prod.fst).Nodup)
    (hgroups : ∀ group ∈ groups, group.2 = l.filter fun x => f x = group.1) (k : κ) :
    (groups.flatMap Prod.snd).filter (fun x => f x = k) =
      if k ∈ groups.map Prod.fst then l.filter fun x => f x = k else [] := by
  induction groups with
  | nil => simp
  | cons group groups ih =>
    obtain ⟨hnew, hnodup⟩ := List.nodup_cons.mp hnodup
    obtain ⟨hgroup, hrest⟩ := List.forall_mem_cons.mp hgroups
    rw [List.flatMap_cons, List.filter_append, ih hnodup hrest, hgroup, List.filter_filter]
    by_cases hk : k = group.1
    · subst hk
      simp [hnew]
    · have hnone : (l.filter fun x => decide (f x = k) && decide (f x = group.1)) = [] := by
        refine List.filter_eq_nil_iff.mpr fun x _ h => ?_
        simp only [Bool.and_eq_true, decide_eq_true_eq] at h
        exact hk (h.1.symm.trans h.2)
      rw [hnone, List.nil_append]
      simp only [List.map_cons, List.mem_cons, hk, false_or]

/-- **The elements with one key stay in their order.** -/
theorem filter_flatMap_grouped (f : α → κ) (l : List α) (k : κ) :
    ((grouped f l).flatMap Prod.snd).filter (fun x => f x = k) = l.filter fun x => f x = k := by
  rw [filter_flatMap_of_nodup (nodup_grouped f l) (fun _ hgroup => mem_grouped hgroup)]
  split
  next => rfl
  next hk =>
    refine (List.filter_eq_nil_iff.mpr fun x hx => ?_).symm
    simp only [decide_eq_true_eq]
    exact fun heq => hk (mem_keys_grouped.mpr (heq ▸ List.mem_map_of_mem hx))

end Grouping
