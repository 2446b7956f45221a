import PeerX.Foundations.Indexed

/-!
# Insertion-ordered maps

A map of JavaScript lists its entries in the order in which their keys were first set. Setting a key
that is there keeps its place, deleting it forgets the place. So a map is a table whose rows are its
entries, and `set` is the upsert of an entry.

## Main results

* `get_set`, `get_delete`, `get_deleteAll`: a lookup after each operation
* `forall_get_set`: a property of all entries after one is set
* `mem_delete`, `mem_deleteAll`: the entries after each operation
* `size_set_le`, `size_deleteAll`: the number of the entries
-/

namespace Relational

/-- A map with its entries in insertion order. -/
abbrev JsMap (κ ν : Type) : Type := Table (Prod.fst : κ × ν → κ)

namespace JsMap

variable {κ ν : Type}

/-- `new Map()`. -/
def new : JsMap κ ν := Table.empty

/-- The entries, in insertion order. -/
def entries (m : JsMap κ ν) : List (κ × ν) := m.rows

/-- The keys, in insertion order. -/
def keys (m : JsMap κ ν) : List κ := m.entries.map Prod.fst

def size (m : JsMap κ ν) : ℕ := m.entries.length

theorem nodup_keys (m : JsMap κ ν) : m.keys.Nodup := m.nodup

@[simp] theorem entries_new : (new : JsMap κ ν).entries = [] := rfl

@[simp] theorem size_new : (new : JsMap κ ν).size = 0 := rfl

theorem length_keys (m : JsMap κ ν) : m.keys.length = m.size := List.length_map _

/-- The values, in the order of their keys. -/
def values (m : JsMap κ ν) : List ν := m.entries.map Prod.snd

/-- The map with each value changed in its place. -/
def mapValues (f : ν → ν) (m : JsMap κ ν) : JsMap κ ν where
  rows := m.entries.map fun entry => (entry.1, f entry.2)
  nodup := by
    rw [List.map_map]
    exact m.nodup

@[simp] theorem entries_mapValues (f : ν → ν) (m : JsMap κ ν) :
    (m.mapValues f).entries = m.entries.map fun entry => (entry.1, f entry.2) := rfl

variable [DecidableEq κ]

def get (m : JsMap κ ν) (k : κ) : Option ν := (m.find k).map Prod.snd

def has (m : JsMap κ ν) (k : κ) : Bool := (m.get k).isSome

def set (m : JsMap κ ν) (k : κ) (v : ν) : JsMap κ ν := m.save (k, v)

def delete (m : JsMap κ ν) (k : κ) : JsMap κ ν := m.erase k

/-- The deletion of the listed keys. -/
def deleteAll (m : JsMap κ ν) (ks : List κ) : JsMap κ ν := ks.foldl delete m

variable {m m' : JsMap κ ν} {k k' : κ} {v v' : ν} {ks : List κ}

@[simp] theorem get_new (k : κ) : (new : JsMap κ ν).get k = none := rfl

theorem mem_entries : (k, v) ∈ m.entries ↔ m.get k = some v := by
  constructor
  · intro h
    have hfind : m.find k = some (k, v) := Table.find_of_mem h
    rw [get, hfind, Option.map_some]
  · intro h
    obtain ⟨entry, hfind, rfl⟩ := Option.map_eq_some_iff.mp h
    obtain rfl : entry.1 = k := Table.key_of_find hfind
    exact Table.mem_of_find hfind

theorem mem_keys : k ∈ m.keys ↔ m.has k := by
  rw [has, Option.isSome_iff_exists]
  constructor
  · intro h
    obtain ⟨entry, hentry, rfl⟩ := List.mem_map.mp h
    exact ⟨entry.2, mem_entries.mp hentry⟩
  · rintro ⟨v, hv⟩
    exact List.mem_map.mpr ⟨(k, v), mem_entries.mpr hv, rfl⟩

theorem get_set (m : JsMap κ ν) (k k' : κ) (v : ν) : (m.set k v).get k' = if k' = k then some v else m.get k' := by
  rw [get, set, Table.find_save]
  split <;> rfl

@[simp] theorem get_set_self (m : JsMap κ ν) (k : κ) (v : ν) : (m.set k v).get k = some v := by
  rw [get_set, if_pos rfl]

theorem get_set_of_ne (m : JsMap κ ν) (h : k' ≠ k) (v : ν) : (m.set k v).get k' = m.get k' := by
  rw [get_set, if_neg h]

theorem mem_delete : (k', v') ∈ (m.delete k).entries ↔ (k', v') ∈ m.entries ∧ k' ≠ k := Table.mem_erase

theorem get_delete (m : JsMap κ ν) (k k' : κ) : (m.delete k).get k' = if k' = k then none else m.get k' := by
  refine Option.ext fun v => ?_
  rw [← mem_entries, mem_delete, mem_entries]
  by_cases h : k' = k <;> simp [h]

theorem get_delete_of_ne (m : JsMap κ ν) (h : k' ≠ k) : (m.delete k).get k' = m.get k' := by
  rw [get_delete, if_neg h]

theorem has_set : (m.set k v).has k' ↔ m.has k' ∨ k' = k := by
  rw [has, get_set]
  split
  next heq => simp [heq]
  next hne => simp [hne, has]

theorem has_delete : (m.delete k).has k' ↔ m.has k' ∧ k' ≠ k := by
  rw [has, get_delete]
  split
  next heq => simp [heq]
  next hne => simp [hne, has]

/-- What holds of every entry, and of the new one, holds after it is set. -/
theorem forall_get_set {P : κ → ν → Prop} (h : ∀ k v, m.get k = some v → P k v) (hnew : P k v) :
    ∀ k' v', (m.set k v).get k' = some v' → P k' v' := by
  intro k' v' hget
  rw [get_set] at hget
  split at hget
  next heq =>
    obtain rfl := Option.some.inj hget
    rwa [heq]
  next => exact h k' v' hget

theorem get_mapValues (f : ν → ν) (m : JsMap κ ν) (k : κ) : (m.mapValues f).get k = (m.get k).map f := by
  ext v
  rw [← mem_entries, entries_mapValues, List.mem_map, Option.map_eq_some_iff]
  constructor
  · rintro ⟨⟨k', v'⟩, hentry, heq⟩
    obtain ⟨rfl, rfl⟩ := Prod.mk.inj heq
    exact ⟨v', mem_entries.mp hentry, rfl⟩
  · rintro ⟨v', hv', rfl⟩
    exact ⟨(k, v'), mem_entries.mpr hv', rfl⟩

theorem get_deleteAll (m : JsMap κ ν) (ks : List κ) (k : κ) :
    (m.deleteAll ks).get k = if k ∈ ks then none else m.get k := by
  induction ks generalizing m with
  | nil => rfl
  | cons k' ks ih =>
    refine (ih (m.delete k')).trans ?_
    rw [get_delete]
    by_cases hk : k = k' <;> by_cases hks : k ∈ ks <;> simp [hk, hks]

theorem mem_deleteAll : (k, v) ∈ (m.deleteAll ks).entries ↔ (k, v) ∈ m.entries ∧ k ∉ ks := by
  rw [mem_entries, get_deleteAll, mem_entries]
  by_cases h : k ∈ ks <;> simp [h]

theorem perm_set (m : JsMap κ ν) (k : κ) (v : ν) : (m.set k v).entries.Perm ((k, v) :: (m.delete k).entries) :=
  Table.perm_save_erase m (k, v)

omit [DecidableEq κ] in
theorem entry_eq {a b : κ × ν} (ha : a ∈ m.entries) (hb : b ∈ m.entries) (h : a.1 = b.1) : a = b :=
  Table.eq_of_key_eq ha hb h

theorem keys_set (m : JsMap κ ν) (k : κ) (v : ν) :
    (m.set k v).keys = if k ∈ m.keys then m.keys else m.keys ++ [k] :=
  map_key_upsert Prod.fst (k, v) m.rows

theorem size_set_of_has (h : m.has k) : (m.set k v).size = m.size := by
  rw [← length_keys, keys_set, if_pos (mem_keys.mpr h), length_keys]

theorem size_set_of_not_has (h : ¬ m.has k) : (m.set k v).size = m.size + 1 := by
  have hkey : k ∉ m.keys := fun hk => h (mem_keys.mp hk)
  rw [← length_keys, keys_set, if_neg hkey, List.length_append, length_keys, List.length_singleton]

theorem size_set_le : (m.set k v).size ≤ m.size + 1 := by
  by_cases h : m.has k
  · rw [size_set_of_has h]
    exact Nat.le_succ _
  · exact (size_set_of_not_has h).le

theorem entries_deleteAll (m : JsMap κ ν) (ks : List κ) :
    (m.deleteAll ks).entries = m.entries.filter fun entry => entry.1 ∉ ks := by
  induction ks generalizing m with
  | nil => simp [deleteAll]
  | cons k ks ih =>
    refine (ih (m.delete k)).trans ?_
    rw [delete, entries, Table.erase, List.filter_filter]
    refine List.filter_congr fun entry _ => ?_
    by_cases hk : entry.1 = k <;> simp [hk]

theorem delete_sublist (m : JsMap κ ν) (k : κ) : (m.delete k).entries.Sublist m.entries := List.filter_sublist

theorem delete_of_not_has (h : ¬ m.has k) : m.delete k = m := by
  rw [has, get, Option.isSome_map, Bool.not_eq_true, Option.isSome_eq_false_iff, Option.isNone_iff_eq_none] at h
  cases m
  exact Table.mk.injEq .. ▸ Table.erase_of_find_eq_none h

theorem deleteAll_sublist (m : JsMap κ ν) (ks : List κ) : (m.deleteAll ks).entries.Sublist m.entries := by
  rw [entries_deleteAll]
  exact List.filter_sublist

theorem size_eq_of_has {ν' : Type} {m' : JsMap κ ν'} (h : ∀ k, m.has k = m'.has k) : m.size = m'.size := by
  have hkeys : m.keys.Perm m'.keys := by
    refine (List.perm_ext_iff_of_nodup m.nodup_keys m'.nodup_keys).mpr fun k => ?_
    rw [mem_keys, mem_keys, h]
  simpa [length_keys] using hkeys.length_eq

theorem entries_set_of_not_has (h : ¬ m.has k) : (m.set k v).entries = m.entries ++ [(k, v)] := by
  apply Table.rows_save_new
  rwa [has, get, Option.isSome_map, Bool.not_eq_true, Option.isSome_eq_false_iff, Option.isNone_iff_eq_none] at h

theorem entries_foldl_set {α : Type} (f : α → ν) {l : List (κ × α)} (hnodup : (l.map Prod.fst).Nodup)
    (hnew : ∀ entry ∈ l, ¬ m.has entry.1) :
    (l.foldl (fun m entry => m.set entry.1 (f entry.2)) m).entries =
      m.entries ++ l.map fun entry => (entry.1, f entry.2) := by
  induction l generalizing m with
  | nil => simp
  | cons entry l ih =>
    obtain ⟨hfirst, hrest⟩ := List.nodup_cons.mp hnodup
    obtain ⟨hentry, hl⟩ := List.forall_mem_cons.mp hnew
    have hnew' : ∀ other ∈ l, ¬ (m.set entry.1 (f entry.2)).has other.1 := by
      intro other hother
      have hne : other.1 ≠ entry.1 := fun heq => hfirst (List.mem_map.mpr ⟨other, hother, heq⟩)
      rw [has, get_set_of_ne m hne]
      exact hl other hother
    rw [List.foldl_cons, ih hrest hnew', entries_set_of_not_has hentry, List.append_assoc]
    rfl

theorem filter_mem_keys_of_sublist {l l' : List (κ × ν)} (hsub : l.Sublist l') (hnodup : (l'.map Prod.fst).Nodup) :
    l'.filter (fun entry => entry.1 ∈ l.map Prod.fst) = l := by
  induction hsub with
  | slnil => rfl
  | @cons l l' entry hsub ih =>
    obtain ⟨hnew, hrest⟩ := List.nodup_cons.mp hnodup
    have hout : entry.1 ∉ l.map Prod.fst := fun hmem => hnew ((hsub.map Prod.fst).subset hmem)
    rw [List.filter_cons_of_neg (by simpa using hout), ih hrest]
  | @cons_cons l l' entry hsub ih =>
    obtain ⟨hnew, hrest⟩ := List.nodup_cons.mp hnodup
    rw [List.filter_cons_of_pos (by simp)]
    refine congrArg (entry :: ·) ((List.filter_congr fun other hother => ?_).trans (ih hrest))
    have hne : other.1 ≠ entry.1 := fun heq => hnew (List.mem_map.mpr ⟨other, hother, heq⟩)
    simp [hne]

/-- The deletion of entries that meet a condition takes them from those that meet it. -/
theorem length_filter_deleteAll {l : List (κ × ν)} (hsub : l.Sublist m.entries) {p : κ × ν → Bool}
    (hp : ∀ entry ∈ l, p entry) :
    ((m.deleteAll (l.map Prod.fst)).entries.filter p).length + l.length = (m.entries.filter p).length := by
  have hdeleted : (m.entries.filter fun entry => entry.1 ∈ l.map Prod.fst) = l :=
    filter_mem_keys_of_sublist hsub m.nodup
  have hsplit := List.length_eq_length_filter_add (l := m.entries.filter p) fun entry => entry.1 ∈ l.map Prod.fst
  have hcommute : ∀ q : κ × ν → Bool, (m.entries.filter p).filter q = (m.entries.filter q).filter p := fun q => by
    rw [List.filter_filter, List.filter_filter]
    exact List.filter_congr fun entry _ => Bool.and_comm _ _
  rw [hcommute, hcommute, hdeleted, List.filter_eq_self.mpr hp] at hsplit
  rw [entries_deleteAll, hsplit, Nat.add_comm]
  simp only [decide_not]

theorem size_delete_le (m : JsMap κ ν) (k : κ) : (m.delete k).size ≤ m.size := (delete_sublist m k).length_le

theorem size_deleteAll_le (m : JsMap κ ν) (ks : List κ) : (m.deleteAll ks).size ≤ m.size :=
  (deleteAll_sublist m ks).length_le

theorem size_deleteAll (hnodup : ks.Nodup) (hmem : ∀ k ∈ ks, m.has k) : (m.deleteAll ks).size + ks.length = m.size := by
  induction ks generalizing m with
  | nil => rfl
  | cons k ks ih =>
    obtain ⟨hk, hks⟩ := List.nodup_cons.mp hnodup
    have hhas := hmem k List.mem_cons_self
    -- the other keys are there still, as they differ from the first one
    have hrest : ∀ k' ∈ ks, (m.delete k).has k' := by
      intro k' hk'
      have hne : k' ≠ k := fun heq => hk (heq ▸ hk')
      rw [has, get_delete_of_ne m hne]
      exact hmem k' (List.mem_cons_of_mem _ hk')
    obtain ⟨v, hv⟩ := Option.isSome_iff_exists.mp hhas
    have hone : m.size = (m.delete k).size + 1 := by
      have hperm := Table.perm_erase (mem_entries.mpr hv)
      exact hperm.length_eq
    have hafter := ih hks hrest
    rw [deleteAll, List.foldl_cons, List.length_cons, hone, ← hafter, deleteAll]
    omega

theorem size_delete_of_has (h : m.has k) : (m.delete k).size + 1 = m.size :=
  size_deleteAll (List.nodup_singleton k) fun _ hk' => List.mem_singleton.mp hk' ▸ h

omit [DecidableEq κ] in
theorem size_eq_zero : m.size = 0 ↔ m.entries = [] := List.length_eq_zero_iff

theorem size_ne_zero_iff : m.size ≠ 0 ↔ ∃ k, m.has k := by
  rw [Ne, size_eq_zero, List.eq_nil_iff_forall_not_mem, not_forall]
  constructor
  · rintro ⟨⟨k, v⟩, hentry⟩
    exact ⟨k, Option.isSome_iff_exists.mpr ⟨v, mem_entries.mp (not_not.mp hentry)⟩⟩
  · rintro ⟨k, hk⟩
    obtain ⟨v, hv⟩ := Option.isSome_iff_exists.mp hk
    exact ⟨(k, v), not_not.mpr (mem_entries.mpr hv)⟩

variable {p : κ × ν → Bool}

theorem countP_delete_le : (m.delete k).entries.countP p ≤ m.entries.countP p := (delete_sublist m k).countP_le

theorem countP_set_le_succ : (m.set k v).entries.countP p ≤ m.entries.countP p + 1 := by
  rw [(perm_set m k v).countP_eq, List.countP_cons]
  exact Nat.add_le_add countP_delete_le (by split <;> decide)

/-- An entry that meets a condition if the one before it does. -/
theorem countP_set_le (h : p (k, v) → ∃ v', m.get k = some v' ∧ p (k, v')) :
    (m.set k v).entries.countP p ≤ m.entries.countP p := by
  rw [(perm_set m k v).countP_eq, List.countP_cons]
  by_cases hp : p (k, v)
  · obtain ⟨v', hget, hp'⟩ := h hp
    have hperm : m.entries.Perm ((k, v') :: (m.delete k).entries) := Table.perm_erase (mem_entries.mpr hget)
    rw [hperm.countP_eq, List.countP_cons, if_pos hp, if_pos hp']
  · rw [if_neg hp]
    exact countP_delete_le

end JsMap

end Relational
