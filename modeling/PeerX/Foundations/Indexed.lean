import PeerX.Foundations.Table
import Mathlib.Algebra.Order.Group.Int

/-!
# Unique indexes and counted rows

A partial unique index allows at most one row of a group among the rows that meet its condition. A
program that checks before it inserts keeps such an index without declaring it, as long as every
other save of a row that meets the condition is checked too. Next to it, programs cache how many
rows meet a condition; a save changes the count by what it changes of its own row.

A table may also declare an index on top of its primary key: two rows with the same entry are one
row, and rows without an entry do not take part. A save that would break the index is refused by the
database, so that it is only defined for rows that do not conflict.

## Main results

* `Table.uniqueWhere_save_iff`: which saves keep the index
* `Table.count_save`, `Table.count_save_new`: the count after an update and after an insert
* `Table.rows_saveAll_filter`: the rows after the saves of all rows that meet a condition
* `Table.perm_save`, `Table.perm_erase`: the rows after an insert, and before a removal
* `Indexed.eq_of_index_eq`: two rows with the same entry are one
-/

namespace Relational

namespace Table

variable {ρ κ γ : Type} {key : ρ → κ} {t : Table key} {group : ρ → γ} {q q' : ρ → Prop}

/-- A partial unique index: two rows of one group that meet `q` are one row. -/
def UniqueWhere (group : ρ → γ) (q : ρ → Prop) (t : Table key) : Prop :=
  ∀ r ∈ t.rows, q r → ∀ r' ∈ t.rows, q r' → group r = group r' → r = r'

instance [DecidableEq ρ] [DecidableEq γ] [DecidablePred q] : Decidable (t.UniqueWhere group q) :=
  inferInstanceAs (Decidable (∀ r ∈ t.rows, q r → ∀ r' ∈ t.rows, q r' → group r = group r' → r = r'))

theorem uniqueWhere_of_rows_eq_nil (h : t.rows = []) : t.UniqueWhere group q := by
  intro r hr
  rw [h] at hr
  cases hr

theorem UniqueWhere.mono (h : t.UniqueWhere group q) (hq : ∀ r, q' r → q r) : t.UniqueWhere group q' :=
  fun r hr hqr r' hr' hqr' => h r hr (hq r hqr) r' hr' (hq r' hqr')

/-- **A save keeps the index** exactly when the saved row does not meet the condition, or no other
row of its group does. -/
theorem uniqueWhere_save_iff [DecidableEq κ] (h : t.UniqueWhere group q) (r : ρ) :
    (t.save r).UniqueWhere group q ↔
      (q r → ∀ r' ∈ t.rows, key r' ≠ key r → group r' = group r → ¬ q r') := by
  constructor
  · intro hsave hqr r' hr' hne hgroup hqr'
    have heq := hsave r (mem_save_self t r) hqr r' (mem_save.mpr (.inr ⟨hr', hne⟩)) hqr' hgroup.symm
    exact hne (congrArg key heq.symm)
  · -- of two rows that meet the condition, one may be the saved row
    intro halone x hx hqx y hy hqy hgroup
    rcases mem_save.mp hx with rfl | ⟨hx', hnx⟩
    · rcases mem_save.mp hy with rfl | ⟨hy', hny⟩
      · rfl
      · exact absurd hqy (halone hqx y hy' hny hgroup.symm)
    · rcases mem_save.mp hy with rfl | ⟨hy', -⟩
      · exact absurd hqx (halone hqy x hx' hnx hgroup)
      · exact h x hx' hqx y hy' hqy hgroup

/-- The index after every row has been updated in place. -/
theorem uniqueWhere_map_iff {t' : Table key} {f : ρ → ρ} (hrows : t'.rows = t.rows.map f)
    (hkey : ∀ r, key (f r) = key r) (hgroup : ∀ r, group (f r) = group r) :
    t'.UniqueWhere group q ↔ t.UniqueWhere group fun r => q (f r) := by
  simp only [UniqueWhere, hrows, List.forall_mem_map, hgroup]
  constructor
  · intro h r hr hqr r' hr' hqr' hg
    have heq := h r hr hqr r' hr' hqr' hg
    exact eq_of_key_eq hr hr' (by rw [← hkey r, heq, hkey])
  · intro h r hr hqr r' hr' hqr' hg
    rw [h r hr hqr r' hr' hqr' hg]

/-- The number of rows that meet `q`. -/
def count (q : ρ → Prop) [DecidablePred q] (t : Table key) : ℤ := t.sum fun r => if q r then 1 else 0

section Count

variable [DecidablePred q]

theorem count_eq_length : t.count q = (t.rows.filter q).length := by
  unfold count sum
  induction t.rows with
  | nil => rfl
  | cons r l ih =>
    by_cases hq : q r
    · simp [hq, ih, Int.add_comm]
    · simp [hq, ih]

theorem count_nonneg : 0 ≤ t.count q := by
  rw [count_eq_length]
  exact Int.natCast_nonneg _

theorem count_pos {r : ρ} (hr : r ∈ t.rows) (hq : q r) : 0 < t.count q := by
  rw [count_eq_length, Int.natCast_pos, List.length_pos_iff_exists_mem]
  exact ⟨r, List.mem_filter.mpr ⟨hr, decide_eq_true hq⟩⟩

/-- The count after every row has been updated in place. -/
theorem count_map {t' : Table key} {f : ρ → ρ} (hrows : t'.rows = t.rows.map f)
    (hf : ∀ r, q (f r) ↔ q r) : t'.count q = t.count q := by
  simp only [count, sum, hrows, List.map_map, Function.comp_def, hf]

variable [DecidableEq κ]

theorem count_save {old r : ρ} (hold : old ∈ t.rows) (hkey : key r = key old) :
    (t.save r).count q = t.count q - (if q old then 1 else 0) + if q r then 1 else 0 :=
  sum_save hold hkey _

theorem count_save_new {r : ρ} (hnew : t.find (key r) = none) :
    (t.save r).count q = t.count q + if q r then 1 else 0 :=
  sum_save_new hnew _

end Count

section SaveAll

variable [DecidableEq κ]

theorem upsert_eq_map {f : ρ → ρ} (hf : ∀ r, key (f r) = key r) {l : List ρ} (hl : (l.map key).Nodup) {r : ρ}
    (hr : r ∈ l) : upsert key (f r) l = l.map fun x => if key x = key r then f x else x := by
  induction l with
  | nil => cases hr
  | cons x xs ih =>
    rw [List.map_cons, List.nodup_cons] at hl
    by_cases hx : key x = key r
    · obtain rfl : x = r := by
        rcases List.mem_cons.mp hr with rfl | hr
        · rfl
        · exact absurd (hx ▸ List.mem_map_of_mem hr) hl.1
      have htail : ∀ y ∈ xs, key y ≠ key x := fun y hy he => hl.1 (he ▸ List.mem_map_of_mem hy)
      have hrest : (xs.map fun y => if key y = key x then f y else y) = xs := by
        rw [List.map_congr_left fun y hy => if_neg (htail y hy), List.map_id']
      simp [upsert, hf, hrest]
    · have hne : r ≠ x := fun he => hx (by rw [he])
      have hmem : r ∈ xs := (List.mem_cons.mp hr).resolve_left hne
      simp [upsert, hf, hx, ih hl.2 hmem]

theorem rows_saveAll {f : ρ → ρ} (hf : ∀ r, key (f r) = key r) {l : List ρ} {t : Table key}
    (hl : (l.map key).Nodup) (hmem : ∀ r ∈ l, r ∈ t.rows) :
    (saveAll f l t).rows = t.rows.map fun x => if key x ∈ l.map key then f x else x := by
  induction l generalizing t with
  | nil => simp
  | cons r l ih =>
    rw [List.map_cons, List.nodup_cons] at hl
    have hrows : (t.save (f r)).rows = t.rows.map fun x => if key x = key r then f x else x :=
      upsert_eq_map hf t.nodup (hmem r List.mem_cons_self)
    have hmem' : ∀ x ∈ l, x ∈ (t.save (f r)).rows := by
      intro x hx
      refine mem_save.mpr (.inr ⟨hmem x (List.mem_cons_of_mem _ hx), ?_⟩)
      rw [hf]
      exact fun he => hl.1 (he ▸ List.mem_map_of_mem hx)
    rw [saveAll_cons, ih hl.2 hmem', hrows, List.map_map]
    apply List.map_congr_left
    intro x hx
    -- a row is updated by its own save alone: the keys of the list are distinct
    by_cases hkey : key x = key r
    · simp only [Function.comp_apply, List.map_cons, List.mem_cons, hkey, hf, hl.1, true_or, if_true, if_false]
    · simp only [Function.comp_apply, List.map_cons, List.mem_cons, hkey, false_or, if_false]

/-- The row with key `k`, if there is one, is changed in its place. -/
def modify (t : Table key) (k : κ) (f : ρ → ρ) : Table key := (t.find k).elim t fun r => t.save (f r)

theorem rows_modify {f : ρ → ρ} (hf : ∀ r, key (f r) = key r) (k : κ) :
    (t.modify k f).rows = t.rows.map fun x => if key x = k then f x else x := by
  rw [modify]
  cases hfind : t.find k with
  | none =>
    rw [List.map_congr_left fun x hx => if_neg (find_eq_none_iff.mp hfind x hx), List.map_id']
    rfl
  | some r =>
    obtain rfl := key_of_find hfind
    exact upsert_eq_map hf t.nodup (mem_of_find hfind)

/-- **The rows that meet a condition, updated in place.** -/
theorem rows_saveAll_filter {f : ρ → ρ} (hf : ∀ r, key (f r) = key r) (p : ρ → Bool) :
    (saveAll f (t.rows.filter p) t).rows = t.rows.map fun x => if p x then f x else x := by
  have hnodup : ((t.rows.filter p).map key).Nodup := t.nodup.sublist (List.filter_sublist.map key)
  rw [rows_saveAll hf hnodup fun r hr => (List.mem_filter.mp hr).1]
  apply List.map_congr_left
  intro x hx
  have hiff : key x ∈ (t.rows.filter p).map key ↔ p x = true := by
    constructor
    · intro h
      obtain ⟨r, hr, he⟩ := List.mem_map.mp h
      obtain ⟨hr, hp⟩ := List.mem_filter.mp hr
      rwa [eq_of_key_eq hx hr he.symm]
    · exact fun h => List.mem_map_of_mem (List.mem_filter.mpr ⟨hx, h⟩)
  simp only [hiff]

end SaveAll

end Table

variable {ρ κ υ : Type} {key : ρ → κ}

namespace Table

variable [DecidableEq κ]

/-- The table without the row with key `k`. -/
def erase (t : Table key) (k : κ) : Table key :=
  ⟨t.rows.filter fun r => key r ≠ k, (t.nodup).sublist (List.filter_sublist.map key)⟩

variable {t : Table key} {r x : ρ} {k : κ}

theorem mem_erase : x ∈ (t.erase k).rows ↔ x ∈ t.rows ∧ key x ≠ k := by
  simp [erase]

theorem perm_save (h : ∀ q ∈ t.rows, key q ≠ key r) : (t.save r).rows.Perm (r :: t.rows) := by
  have hnodup : (r :: t.rows).Nodup := by
    refine List.nodup_cons.mpr ⟨fun hr => h r hr rfl, ?_⟩
    exact List.Nodup.of_map key t.nodup
  refine (List.perm_ext_iff_of_nodup (List.Nodup.of_map key (t.save r).nodup) hnodup).mpr fun q => ?_
  rw [mem_save, List.mem_cons]
  constructor
  · rintro (rfl | ⟨hq, -⟩)
    · exact .inl rfl
    · exact .inr hq
  · rintro (rfl | hq)
    · exact .inl rfl
    · exact .inr ⟨hq, h q hq⟩

/-- The rows after a save, which replaces the row with the same key. -/
theorem perm_save_erase (t : Table key) (r : ρ) : (t.save r).rows.Perm (r :: (t.erase (key r)).rows) := by
  have hnew : r ∉ (t.erase (key r)).rows := fun hr => (mem_erase.mp hr).2 rfl
  have hnodup : (r :: (t.erase (key r)).rows).Nodup := List.nodup_cons.mpr ⟨hnew, List.Nodup.of_map key (t.erase _).nodup⟩
  refine (List.perm_ext_iff_of_nodup (List.Nodup.of_map key (t.save r).nodup) hnodup).mpr fun q => ?_
  rw [mem_save, List.mem_cons, mem_erase]

theorem erase_of_find_eq_none {k : κ} (h : t.find k = none) : (t.erase k).rows = t.rows :=
  List.filter_eq_self.mpr fun r hr => decide_eq_true (find_eq_none_iff.mp h r hr)

theorem perm_erase (h : r ∈ t.rows) : t.rows.Perm (r :: (t.erase (key r)).rows) := by
  have hnodup : (r :: (t.erase (key r)).rows).Nodup := by
    refine List.nodup_cons.mpr ⟨fun hr => (mem_erase.mp hr).2 rfl, ?_⟩
    exact List.Nodup.of_map key (t.erase (key r)).nodup
  refine (List.perm_ext_iff_of_nodup (List.Nodup.of_map key t.nodup) hnodup).mpr fun q => ?_
  rw [List.mem_cons, mem_erase]
  constructor
  · intro hq
    by_cases hkey : key q = key r
    · exact .inl (eq_of_key_eq hq h hkey)
    · exact .inr ⟨hq, hkey⟩
  · rintro (rfl | ⟨hq, -⟩)
    · exact h
    · exact hq

end Table

/-- A table with a unique index. -/
structure Indexed (key : ρ → κ) (index : ρ → Option υ) where
  table : Table key
  unique : table.UniqueWhere index fun r => (index r).isSome

namespace Indexed

variable {index : ρ → Option υ}

/-- The rows of the table. -/
def rows (t : Indexed key index) : List ρ := t.table.rows

/-- The empty table. -/
def empty : Indexed key index := ⟨.empty, Table.uniqueWhere_of_rows_eq_nil rfl⟩

variable {t : Indexed key index} {r q x : ρ}

theorem nodup (t : Indexed key index) : (t.rows.map key).Nodup := t.table.nodup

theorem eq_of_key_eq (hr : r ∈ t.rows) (hq : q ∈ t.rows) (hkey : key r = key q) : r = q :=
  Table.eq_of_key_eq hr hq hkey

theorem eq_of_index_eq (hr : r ∈ t.rows) (hq : q ∈ t.rows) (hindex : index r = index q) (hsome : (index r).isSome) :
    r = q := by
  refine t.unique r hr hsome q hq ?_ hindex
  rwa [hindex] at hsome

variable [DecidableEq κ]

/-- The index refuses the row: another row has its entry. -/
def Conflicts (t : Indexed key index) (r : ρ) : Prop :=
  ∃ q ∈ t.rows, key q ≠ key r ∧ index q = index r ∧ (index r).isSome

instance [DecidableEq υ] (t : Indexed key index) (r : ρ) : Decidable (t.Conflicts r) :=
  inferInstanceAs (Decidable (∃ q ∈ t.rows, _))

/-- The save of a row that the index does not refuse. -/
def save (t : Indexed key index) (r : ρ) (h : ¬ t.Conflicts r) : Indexed key index where
  table := t.table.save r
  unique := (Table.uniqueWhere_save_iff t.unique r).mpr fun hr q hq hne hindex _ => h ⟨q, hq, hne, hindex, hr⟩

/-- The removal of a row. -/
def erase (t : Indexed key index) (k : κ) : Indexed key index where
  table := t.table.erase k
  unique := fun r hr hsome r' hr' hsome' heq =>
    t.unique r (Table.mem_erase.mp hr).1 hsome r' (Table.mem_erase.mp hr').1 hsome' heq

theorem mem_save {h : ¬ t.Conflicts r} : x ∈ (t.save r h).rows ↔ x = r ∨ x ∈ t.rows ∧ key x ≠ key r := Table.mem_save

theorem mem_erase {k : κ} : x ∈ (t.erase k).rows ↔ x ∈ t.rows ∧ key x ≠ k := Table.mem_erase

end Indexed

end Relational
