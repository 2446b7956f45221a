import Mathlib.Data.List.Sort

/-!
# Sorted rings

A ring is a list of nodes in the order of their hashes. The node of a key is the first one whose
hash is not smaller, or the first one of all. Nodes that come or go change the node of a key only to
a node that comes, or from one that goes.

## Main results

* `lookup_filter`: a node that stays is still the node of its keys
* `lookup_insertionSort`: a key keeps its node, or gets a new one
* `filter_insertionSort`: the sort of the nodes that stay
* `lookup_eq_getElem?`: the node of a key, by its position
-/

namespace SortedRing

variable {α κ : Type} [LinearOrder κ]

/-- The node of a key: the first one whose hash is not smaller, or the first one of all. -/
def lookup (hash : α → κ) (ring : List α) (key : κ) : Option α := (ring.find? fun a => key ≤ hash a).or ring.head?

variable {hash : α → κ} {ring ring' new : List α} {key : κ} {a : α} {p q : α → Bool}

/-- The first node of a kind, among the nodes that stay. -/
theorem find?_filter_of_pos (h : ring.find? q = some a) (ha : p a) : (ring.filter p).find? q = some a := by
  obtain ⟨hq, before, after, rfl, hbefore⟩ := List.find?_eq_some_iff_append.mp h
  refine List.find?_eq_some_iff_append.mpr ⟨hq, before.filter p, after.filter p, ?_, fun b hb => ?_⟩
  · rw [List.filter_append, List.filter_cons_of_pos ha]
  · exact hbefore b (List.mem_filter.mp hb).1

theorem head?_eq_find? (ring : List α) : ring.head? = ring.find? fun _ => true := by
  cases ring <;> rfl

/-- **A node that stays is still the node of its keys.** -/
theorem lookup_filter (h : lookup hash ring key = some a) (ha : p a) : lookup hash (ring.filter p) key = some a := by
  rcases Option.or_eq_some_iff.mp h with hfind | ⟨hnone, hhead⟩
  · exact Option.or_eq_some_iff.mpr (.inl (find?_filter_of_pos hfind ha))
  · refine Option.or_eq_some_iff.mpr (.inr ⟨?_, ?_⟩)
    · exact List.find?_eq_none.mpr fun b hb => List.find?_eq_none.mp hnone b (List.mem_filter.mp hb).1
    · rw [head?_eq_find?] at hhead ⊢
      exact find?_filter_of_pos hhead ha

/-- The first node of a kind is a new one, or it was the first one before. -/
theorem find?_of_sublist [DecidableEq α] (hsub : ring.Sublist ring') (hperm : ring'.Perm (ring ++ new))
    (h : ring'.find? p = some a) (ha : a ∉ new) : ring.find? p = some a := by
  obtain ⟨hp, before, after, rfl, hbefore⟩ := List.find?_eq_some_iff_append.mp h
  obtain ⟨first, rest, rfl, hfirst, hrest⟩ := List.sublist_append_iff.mp hsub
  have hnone : ∀ b ∈ first, (!p b) = true := fun b hb => hbefore b (hfirst.subset hb)
  cases hrest with
  | cons_cons _ hrest =>
    rename_i rest
    exact List.find?_eq_some_iff_append.mpr ⟨hp, first, rest, rfl, hnone⟩
  | cons _ hrest =>
    -- the old nodes would lie without this one, which is one of them
    have hcount := hperm.count_eq a
    have hfirst' := hfirst.count_le a
    have hrest' := hrest.count_le a
    simp only [List.count_append, List.count_cons_self, List.count_eq_zero_of_not_mem ha] at hcount
    omega

/-- A key keeps its node, or gets a new one, when nodes come. -/
theorem lookup_of_sublist [DecidableEq α] (hsub : ring.Sublist ring') (hperm : ring'.Perm (ring ++ new)) :
    lookup hash ring' key = lookup hash ring key ∨ ∃ a ∈ new, lookup hash ring' key = some a := by
  cases hlookup : lookup hash ring' key with
  | none =>
    left
    obtain ⟨-, hhead⟩ := Option.or_eq_none_iff.mp hlookup
    obtain rfl := List.head?_eq_none_iff.mp hhead
    obtain rfl := List.sublist_nil.mp hsub
    rfl
  | some a =>
    by_cases ha : a ∈ new
    · exact .inr ⟨a, ha, rfl⟩
    · left
      symm
      rcases Option.or_eq_some_iff.mp hlookup with hfind | ⟨hnone, hhead⟩
      · exact Option.or_eq_some_iff.mpr (.inl (find?_of_sublist hsub hperm hfind ha))
      · refine Option.or_eq_some_iff.mpr (.inr ⟨?_, ?_⟩)
        · exact List.find?_eq_none.mpr fun b hb => List.find?_eq_none.mp hnone b (hsub.subset hb)
        · rw [head?_eq_find?] at hhead ⊢
          exact find?_of_sublist hsub hperm hhead ha

/-- **A stable sort** of a sorted ring with new nodes behind it. -/
theorem lookup_insertionSort [DecidableEq α] (hsorted : ring.Pairwise fun a b => hash a ≤ hash b) (new : List α)
    (key : κ) :
    lookup hash ((ring ++ new).insertionSort fun a b => hash a ≤ hash b) key = lookup hash ring key ∨
      ∃ a ∈ new, lookup hash ((ring ++ new).insertionSort fun a b => hash a ≤ hash b) key = some a :=
  lookup_of_sublist (List.sublist_insertionSort hsorted (List.sublist_append_left _ _)) (List.perm_insertionSort _ _)

theorem orderedInsert_eq_cons {r : α → α → Prop} [DecidableRel r] {l : List α} (h : ∀ b ∈ l, r a b) :
    l.orderedInsert r a = a :: l := by
  cases l with
  | nil => rfl
  | cons b l => exact List.orderedInsert_cons_of_le r l (h b List.mem_cons_self)

theorem filter_orderedInsert {r : α → α → Prop} [DecidableRel r] [IsTrans α r] {l : List α} (h : l.Pairwise r) :
    (l.orderedInsert r a).filter p = if p a then (l.filter p).orderedInsert r a else l.filter p := by
  induction l with
  | nil => cases hp : p a <;> simp [hp]
  | cons b l ih =>
    obtain ⟨hb, hl⟩ := List.pairwise_cons.mp h
    by_cases hab : r a b
    · have hall : ∀ c ∈ b :: l, r a c := List.forall_mem_cons.mpr ⟨hab, fun c hc => trans_of r hab (hb c hc)⟩
      rw [orderedInsert_eq_cons hall, orderedInsert_eq_cons fun c hc => hall c (List.mem_of_mem_filter hc),
        List.filter_cons]
    · rw [List.orderedInsert_of_not_le r l hab, List.filter_cons, List.filter_cons, ih hl]
      cases p a <;> cases p b <;> simp [hab]

/-- **The nodes that stay are sorted as they would be without those that go.** -/
theorem filter_insertionSort {r : α → α → Prop} [DecidableRel r] [Std.Total r] [IsTrans α r] (p : α → Bool) (l : List α) :
    (l.insertionSort r).filter p = (l.filter p).insertionSort r := by
  induction l with
  | nil => rfl
  | cons b l ih =>
    rw [List.insertionSort_cons, filter_orderedInsert (List.pairwise_insertionSort r l), ih, List.filter_cons]
    split
    · rfl
    · rfl

/-- The nodes from a position on are those whose hashes are not smaller. -/
theorem le_hash_getElem_iff (hsorted : ring.Pairwise fun a b => hash a ≤ hash b) {k : ℕ} (hk : k < ring.length) :
    key ≤ hash ring[k] ↔ (ring.findIdx fun a => key ≤ hash a) ≤ k := by
  constructor
  · intro hle
    by_contra hlt
    exact of_decide_eq_false (List.not_of_lt_findIdx (not_le.mp hlt)) hle
  · intro hle
    have hn : (ring.findIdx fun a => key ≤ hash a) < ring.length := hle.trans_lt hk
    have hfirst : key ≤ hash ring[ring.findIdx fun a => key ≤ hash a] := of_decide_eq_true (List.findIdx_getElem (w := hn))
    rcases hle.eq_or_lt with heq | hlt
    · exact heq ▸ hfirst
    · exact hfirst.trans (List.pairwise_iff_getElem.mp hsorted _ _ hn hk hlt)

/-- **The node of a key, by its position.** -/
theorem lookup_eq_getElem? (hash : α → κ) (ring : List α) (key : κ) :
    lookup hash ring key =
      ring[if (ring.findIdx fun a => key ≤ hash a) < ring.length then ring.findIdx fun a => key ≤ hash a else 0]? := by
  split
  next hlt =>
    have hfind : ring.find? (fun a => key ≤ hash a) = ring[ring.findIdx fun a => key ≤ hash a]? :=
      List.find?_eq_getElem?_findIdx
    rw [lookup, hfind, List.getElem?_eq_getElem hlt]
    rfl
  next hnot =>
    have hnone : ring.find? (fun a => key ≤ hash a) = none := by
      refine List.find?_eq_none.mpr fun a ha hle => hnot (List.findIdx_lt_length_of_exists ⟨a, ha, hle⟩)
    rw [lookup, hnone, Option.none_or, List.head?_eq_getElem?]

end SortedRing
