import Mathlib.Data.List.Nodup
import Mathlib.Algebra.Order.BigOperators.Group.List
import Mathlib.Tactic.Abel

/-!
# Keyed tables

A table is a list of rows with pairwise distinct primary keys. `save` is the upsert of an object
mapper: it overwrites the row with the entity's key in place, and appends the entity when the key is
new. Tables are read through `find` and through sums over their rows.

## Main results

* `Table.find_save`: a lookup after a save
* `Table.mem_save`: the rows after a save
* `Table.sum_save`, `Table.sum_save_new`: a column's sum after an update and after an insert
* `Table.save_save_comm`: saves of two stored rows commute
* `Table.mem_saveAll`, `Table.sum_saveAll`: the rows and a column's sum after the saves of stored
  rows
-/

namespace Relational

variable {ρ κ : Type}

/-- Overwrite the first row with the key of `r`, or append `r`. -/
def upsert [DecidableEq κ] (key : ρ → κ) (r : ρ) : List ρ → List ρ
  | [] => [r]
  | x :: xs => if key x = key r then r :: xs else x :: upsert key r xs

section Upsert

variable [DecidableEq κ] (key : ρ → κ)

theorem map_key_upsert (r : ρ) (l : List ρ) :
    (upsert key r l).map key =
      if key r ∈ l.map key then l.map key else l.map key ++ [key r] := by
  induction l with
  | nil => simp [upsert]
  | cons x xs ih =>
    by_cases h : key x = key r
    · simp [upsert, h]
    · have h' : key r ≠ key x := fun e => h e.symm
      simp only [upsert, if_neg h, List.map_cons, List.mem_cons, h', false_or, ih]
      split <;> simp

variable {key} in
theorem nodup_upsert (r : ρ) {l : List ρ} (hl : (l.map key).Nodup) :
    ((upsert key r l).map key).Nodup := by
  rw [map_key_upsert]
  split
  · exact hl
  · next h =>
    rw [List.nodup_append]
    refine ⟨hl, by simp, ?_⟩
    intro a ha b hb
    rw [List.mem_singleton] at hb
    subst hb
    exact fun e => h (e ▸ ha)

variable {key} in
theorem find?_upsert (r : ρ) (l : List ρ) (k : κ) :
    (upsert key r l).find? (fun x => key x = k) =
      if k = key r then some r else l.find? (fun x => key x = k) := by
  induction l with
  | nil =>
    by_cases h : k = key r
    · simp [upsert, h]
    · have h' : key r ≠ k := fun e => h e.symm
      simp [upsert, h, h']
  | cons x xs ih =>
    by_cases hx : key x = key r
    · by_cases h : k = key r
      · simp [upsert, hx, h]
      · have h' : key r ≠ k := fun e => h e.symm
        simp [upsert, hx, h, h']
    · by_cases hk : key x = k
      · have h : k ≠ key r := fun e => hx (hk.trans e)
        simp [upsert, hk, h]
      · simp [upsert, hx, hk, ih]

theorem sum_upsert {M : Type} [AddCommGroup M] (f : ρ → M) (r : ρ) (l : List ρ) :
    ((upsert key r l).map f).sum =
      (l.map f).sum - ((l.find? (fun x => key x = key r)).elim 0 f) + f r := by
  induction l with
  | nil => simp [upsert]
  | cons x xs ih =>
    by_cases h : key x = key r
    · simp [upsert, h]
      abel
    · simp [upsert, h, ih]
      abel

theorem upsert_comm {r r' : ρ} (hne : key r ≠ key r') {l : List ρ} (hr : key r ∈ l.map key)
    (hr' : key r' ∈ l.map key) :
    upsert key r (upsert key r' l) = upsert key r' (upsert key r l) := by
  induction l with
  | nil => simp at hr
  | cons x xs ih =>
    by_cases h : key x = key r
    · have h' : key x ≠ key r' := fun e => hne (h.symm.trans e)
      simp [upsert, h, hne]
    · by_cases h' : key x = key r'
      · have hne' : key r' ≠ key r := fun e => hne e.symm
        simp [upsert, h', hne']
      · simp only [List.map_cons, List.mem_cons] at hr hr'
        have e := ih (hr.resolve_left fun e => h e.symm) (hr'.resolve_left fun e => h' e.symm)
        simp [upsert, h, h', e]

variable {key} in
theorem map_upsert_of_eq {M : Type} {f : ρ → M} {old r : ρ} {l : List ρ} (hl : (l.map key).Nodup)
    (hmem : old ∈ l) (hkey : key old = key r) (hf : f r = f old) :
    (upsert key r l).map f = l.map f := by
  induction l with
  | nil => cases hmem
  | cons x xs ih =>
    by_cases h : key x = key r
    · obtain rfl : x = old :=
        List.inj_on_of_nodup_map hl List.mem_cons_self hmem (h.trans hkey.symm)
      simp [upsert, h, hf]
    · have hne : old ≠ x := fun e => h (e ▸ hkey)
      have htail := ih (List.nodup_cons.mp hl).2 ((List.mem_cons.mp hmem).resolve_left hne)
      simp [upsert, h, htail]

theorem upsert_of_notMem (r : ρ) {l : List ρ} (h : ∀ x ∈ l, key x ≠ key r) : upsert key r l = l ++ [r] := by
  induction l with
  | nil => rfl
  | cons x xs ih =>
    have htail := ih fun y hy => h y (List.mem_cons_of_mem _ hy)
    simp [upsert, h x List.mem_cons_self, htail]

variable {key} in
theorem upsert_upsert {r r' : ρ} (he : key r = key r') (l : List ρ) :
    upsert key r (upsert key r' l) = upsert key r l := by
  induction l with
  | nil => simp [upsert, he]
  | cons x xs ih =>
    by_cases h : key x = key r'
    · simp [upsert, h, he]
    · simp [upsert, h, he, ih]

end Upsert

/-- A keyed table: rows with pairwise distinct keys. -/
structure Table (key : ρ → κ) where
  rows : List ρ
  nodup : (rows.map key).Nodup

namespace Table

variable {key : ρ → κ}

/-- The empty table. -/
def empty : Table key := ⟨[], by simp⟩

/-- The sum of a column over the rows. -/
def sum {M : Type} [AddCommGroup M] (t : Table key) (f : ρ → M) : M := (t.rows.map f).sum

@[simp] theorem rows_empty : (empty : Table key).rows = [] := rfl

section Lookup

variable [DecidableEq κ]

/-- The row with key `k`. -/
def find (t : Table key) (k : κ) : Option ρ := t.rows.find? fun r => key r = k

/-- Upsert: overwrite the row with the key of `r`, or insert `r`. -/
def save (t : Table key) (r : ρ) : Table key := ⟨upsert key r t.rows, nodup_upsert r t.nodup⟩

@[simp] theorem find_empty (k : κ) : (empty : Table key).find k = none := rfl

theorem find_save (t : Table key) (r : ρ) (k : κ) :
    (t.save r).find k = if k = key r then some r else t.find k :=
  find?_upsert r t.rows k

@[simp] theorem find_save_self (t : Table key) (r : ρ) : (t.save r).find (key r) = some r := by
  simp [find_save]

theorem find_save_of_ne (t : Table key) {r : ρ} {k : κ} (h : k ≠ key r) :
    (t.save r).find k = t.find k := by
  simp [find_save, h]

theorem isSome_find_save {t : Table key} {r : ρ} {k : κ} (h : (t.find k).isSome) :
    ((t.save r).find k).isSome := by
  rw [find_save]
  split
  · rfl
  · exact h

theorem key_of_find {t : Table key} {k : κ} {r : ρ} (h : t.find k = some r) : key r = k := by
  simpa using List.find?_some h

theorem mem_of_find {t : Table key} {k : κ} {r : ρ} (h : t.find k = some r) : r ∈ t.rows :=
  List.mem_of_find?_eq_some h

theorem find_of_mem {t : Table key} {r : ρ} (h : r ∈ t.rows) : t.find (key r) = some r := by
  cases hf : t.find (key r) with
  | none =>
    have := List.find?_eq_none.mp hf r h
    simp at this
  | some r' =>
    exact congrArg some (List.inj_on_of_nodup_map t.nodup (mem_of_find hf) h (key_of_find hf))

theorem mem_rows_iff {t : Table key} {r : ρ} : r ∈ t.rows ↔ t.find (key r) = some r :=
  ⟨find_of_mem, mem_of_find⟩

omit [DecidableEq κ] in
theorem eq_of_key_eq {t : Table key} {r r' : ρ} (h : r ∈ t.rows) (h' : r' ∈ t.rows)
    (e : key r = key r') : r = r' :=
  List.inj_on_of_nodup_map t.nodup h h' e

theorem find_eq_none_iff {t : Table key} {k : κ} : t.find k = none ↔ ∀ r ∈ t.rows, key r ≠ k := by
  simp [find]

theorem mem_save {t : Table key} {r x : ρ} :
    x ∈ (t.save r).rows ↔ x = r ∨ (x ∈ t.rows ∧ key x ≠ key r) := by
  rw [mem_rows_iff, find_save]
  by_cases h : key x = key r
  · simp [h, eq_comm]
  · have hx : x ≠ r := fun e => h (by rw [e])
    simp [h, hx, mem_rows_iff]

theorem mem_save_self (t : Table key) (r : ρ) : r ∈ (t.save r).rows := mem_save.mpr (.inl rfl)

theorem sum_save {M : Type} [AddCommGroup M] {t : Table key} {old r : ρ} (h : old ∈ t.rows)
    (hk : key r = key old) (f : ρ → M) : (t.save r).sum f = t.sum f - f old + f r := by
  have hfind := find_of_mem h
  have e := sum_upsert key f r t.rows
  rw [← hk] at hfind
  unfold find at hfind
  rw [hfind] at e
  exact e

theorem sum_save_new {M : Type} [AddCommGroup M] {t : Table key} {r : ρ}
    (h : t.find (key r) = none) (f : ρ → M) : (t.save r).sum f = t.sum f + f r := by
  have e := sum_upsert key f r t.rows
  unfold find at h
  rw [h] at e
  simpa [sum, save] using e

/-- An update that leaves the column alone leaves its sum alone. -/
theorem sum_save_of_eq {M : Type} [AddCommGroup M] {t : Table key} {old r : ρ}
    (h : old ∈ t.rows) (hk : key r = key old) {f : ρ → M} (he : f r = f old) :
    (t.save r).sum f = t.sum f := by
  rw [sum_save h hk, he]
  abel

theorem rows_save_new {t : Table key} {r : ρ} (h : t.find (key r) = none) : (t.save r).rows = t.rows ++ [r] :=
  upsert_of_notMem key r (find_eq_none_iff.mp h)

theorem save_save_comm {t : Table key} {r r' : ρ} (hne : key r ≠ key r')
    (hr : (t.find (key r)).isSome) (hr' : (t.find (key r')).isSome) :
    (t.save r).save r' = (t.save r').save r := by
  have mem : ∀ {k}, (t.find k).isSome → k ∈ t.rows.map key := by
    intro k hk
    obtain ⟨x, hx⟩ := Option.isSome_iff_exists.mp hk
    exact List.mem_map.mpr ⟨x, mem_of_find hx, key_of_find hx⟩
  have e := upsert_comm key hne (mem hr) (mem hr')
  simp only [save, e]

theorem save_save {t : Table key} {r r' : ρ} (he : key r = key r') :
    (t.save r').save r = t.save r := by
  simp only [save, upsert_upsert he]

theorem map_save_of_eq {M : Type} {t : Table key} {f : ρ → M} {old r : ρ} (h : old ∈ t.rows)
    (hk : key old = key r) (hf : f r = f old) : (t.save r).rows.map f = t.rows.map f :=
  map_upsert_of_eq t.nodup h hk hf

theorem save_of_mem {t : Table key} {r : ρ} (h : r ∈ t.rows) : t.save r = t := by
  have hrows : (t.save r).rows.map id = t.rows.map id := map_save_of_eq h rfl rfl
  rw [List.map_id, List.map_id] at hrows
  cases hsaved : t.save r with
  | mk rows nodup =>
    rw [hsaved] at hrows
    cases t
    cases hrows
    rfl

/-- Tables with the same lookups have the same rows, up to their order. -/
theorem perm_of_find {t t' : Table key} (h : ∀ k, t.find k = t'.find k) :
    t.rows.Perm t'.rows := by
  refine (List.perm_ext_iff_of_nodup t.nodup.of_map t'.nodup.of_map).mpr fun r => ?_
  rw [mem_rows_iff, mem_rows_iff, h]

/-! ## Saving several rows -/

/-- The listed rows are saved one after the other, each updated by `f`. -/
def saveAll (f : ρ → ρ) (l : List ρ) (t : Table key) : Table key :=
  l.foldl (fun t r => t.save (f r)) t

@[simp] theorem saveAll_nil (f : ρ → ρ) (t : Table key) : saveAll f [] t = t := rfl

@[simp] theorem saveAll_cons (f : ρ → ρ) (r : ρ) (l : List ρ) (t : Table key) :
    saveAll f (r :: l) t = saveAll f l (t.save (f r)) := rfl

/-- A row after the saves is an updated one, or was there before. -/
theorem mem_saveAll {f : ρ → ρ} {l : List ρ} {t : Table key} {x : ρ}
    (h : x ∈ (saveAll f l t).rows) : (∃ r ∈ l, x = f r) ∨ x ∈ t.rows := by
  induction l generalizing t with
  | nil => exact .inr h
  | cons r l ih =>
    rcases ih h with ⟨r', hr', rfl⟩ | hx
    · exact .inl ⟨r', List.mem_cons_of_mem _ hr', rfl⟩
    · rcases mem_save.mp hx with rfl | ⟨hx, -⟩
      · exact .inl ⟨r, List.mem_cons_self, rfl⟩
      · exact .inr hx

theorem find_saveAll {f : ρ → ρ} (hf : ∀ r, key (f r) = key r) {l : List ρ} {t : Table key} (hl : (l.map key).Nodup)
    {r : ρ} (hr : r ∈ l) : (saveAll f l t).find (key r) = some (f r) := by
  have hothers : ∀ {l : List ρ} {t : Table key}, key r ∉ l.map key → (saveAll f l t).find (key r) = t.find (key r) := by
    intro l
    induction l with
    | nil => exact fun _ => rfl
    | cons x l ih =>
      intro t hnot
      rw [List.map_cons, List.mem_cons, not_or] at hnot
      rw [saveAll_cons, ih hnot.2, find_save_of_ne]
      rw [hf]
      exact hnot.1
  induction l generalizing t with
  | nil => cases hr
  | cons x l ih =>
    rw [List.map_cons, List.nodup_cons] at hl
    rcases List.mem_cons.mp hr with rfl | hr
    · rw [saveAll_cons, hothers hl.1, find_save, if_pos (hf r).symm]
    · exact ih hl.2 hr

/-- The saves change nothing when no row is updated. -/
theorem saveAll_eq_self_iff {f : ρ → ρ} (hf : ∀ r, key (f r) = key r) {l : List ρ} {t : Table key}
    (hl : (l.map key).Nodup) (hmem : ∀ r ∈ l, r ∈ t.rows) : saveAll f l t = t ↔ ∀ r ∈ l, f r = r := by
  constructor
  · intro hsame r hr
    have hfind := find_saveAll hf (t := t) hl hr
    rw [hsame, find_of_mem (hmem r hr)] at hfind
    exact (Option.some.inj hfind).symm
  · intro hsame
    induction l with
    | nil => rfl
    | cons x l ih =>
      rw [List.map_cons, List.nodup_cons] at hl
      rw [saveAll_cons, hsame x List.mem_cons_self, save_of_mem (hmem x List.mem_cons_self)]
      exact ih hl.2 (fun r hr => hmem r (List.mem_cons_of_mem x hr)) fun r hr => hsame r (List.mem_cons_of_mem x hr)

/-- Each save of a stored row changes the sum by what it changes of its row. -/
theorem sum_saveAll {M : Type} [AddCommGroup M] {f : ρ → ρ} (hf : ∀ r, key (f r) = key r)
    {l : List ρ} {t : Table key} (hl : (l.map key).Nodup) (hmem : ∀ r ∈ l, r ∈ t.rows)
    (g : ρ → M) : (saveAll f l t).sum g = t.sum g + (l.map fun r => g (f r) - g r).sum := by
  induction l generalizing t with
  | nil => simp
  | cons r l ih =>
    rw [List.map_cons, List.nodup_cons] at hl
    have hmem' : ∀ x ∈ l, x ∈ (t.save (f r)).rows := by
      intro x hx
      refine mem_save.mpr (.inr ⟨hmem x (List.mem_cons_of_mem _ hx), ?_⟩)
      rw [hf]
      exact fun he => hl.1 (he ▸ List.mem_map_of_mem hx)
    rw [saveAll_cons, ih hl.2 hmem', sum_save (hmem r List.mem_cons_self) (hf r), List.map_cons,
      List.sum_cons]
    abel

end Lookup

theorem sum_nonneg {M : Type} [AddCommGroup M] [PartialOrder M] [IsOrderedAddMonoid M]
    {t : Table key} {f : ρ → M} (h : ∀ r ∈ t.rows, 0 ≤ f r) : 0 ≤ t.sum f :=
  List.sum_nonneg (by simpa using h)

theorem sum_congr {M : Type} [AddCommGroup M] {t : Table key} {f g : ρ → M}
    (h : ∀ r ∈ t.rows, f r = g r) : t.sum f = t.sum g := by
  unfold sum
  rw [List.map_congr_left h]

/-- A stored row is at most the sum of a nonnegative column. -/
theorem le_sum {M : Type} [AddCommGroup M] [PartialOrder M] [IsOrderedAddMonoid M]
    {t : Table key} {f : ρ → M} (h : ∀ r ∈ t.rows, 0 ≤ f r) {r : ρ} (hr : r ∈ t.rows) :
    f r ≤ t.sum f :=
  List.single_le_sum (by simpa using h) _ (List.mem_map_of_mem hr)

theorem length_filter_le_one {t : Table key} {q : ρ → Bool} {k : κ} (h : ∀ r, q r = true → key r = k) :
    (t.rows.filter q).length ≤ 1 := by
  have hnodup : ((t.rows.filter q).map key).Nodup := t.nodup.sublist (List.filter_sublist.map key)
  have hsubset : (t.rows.filter q).map key ⊆ [k] := by
    intro k' hk'
    obtain ⟨r, hr, rfl⟩ := List.mem_map.mp hk'
    exact List.mem_singleton.mpr (h r (List.mem_filter.mp hr).2)
  simpa using (List.subperm_of_subset hnodup hsubset).length_le

/-- The rows under distinct keys have at most the sum of a nonnegative column. -/
theorem sum_find_le [DecidableEq κ] {M : Type} [AddCommGroup M] [PartialOrder M] [IsOrderedAddMonoid M]
    {t : Table key} {f : ρ → M} (h : ∀ r ∈ t.rows, 0 ≤ f r) {ks : List κ} (hks : ks.Nodup) :
    (ks.map fun k => ((t.find k).map f).getD 0).sum ≤ t.sum f := by
  have hfound : (ks.map fun k => ((t.find k).map f).getD 0).sum = ((ks.filterMap t.find).map f).sum := by
    clear hks
    induction ks with
    | nil => rfl
    | cons k ks ih => cases hk : t.find k <;> simp [hk, ih]
  have hnodup : (ks.filterMap t.find).Nodup := hks.filterMap fun k k' r hk hk' =>
    (key_of_find hk).symm.trans (key_of_find hk')
  have hsubset : ks.filterMap t.find ⊆ t.rows := by
    intro r hr
    obtain ⟨k, -, hk⟩ := List.mem_filterMap.mp hr
    exact mem_of_find hk
  obtain ⟨rs, hperm, hsub⟩ := List.subperm_of_subset hnodup hsubset
  rw [hfound, ← (hperm.map f).sum_eq]
  exact (hsub.map f).sum_le_sum (by simpa using h)

end Table

end Relational
