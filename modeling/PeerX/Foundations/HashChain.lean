import Mathlib.Data.List.Chain
import Mathlib.Data.List.Nodup

/-!
# Chains of hashes

Each record carries its hash, and the hash of the record before it; the first one carries a root. A
hash commits to the hash that the record carries, and it is not the root. A reader that compares
what stands next to each other sees a record that is missing from the middle, and records in other
places. It does not see that the first records are missing.

## Main results

* `Grown.concat`: a record added to a chain
* `Grown.nodup`: the hashes of a chain are distinct
* `Grown.linked_delete_iff`: the deletion of a record that is not the last
* `Grown.not_linked_exchange`: the exchange of two records
-/

namespace HashChain

variable {α H : Type} (link hash : α → H) (root : H)

/-- Each record carries the hash of the one before it. -/
def Linked (l : List α) : Prop := l.IsChain fun a b => link b = hash a

/-- A chain from the root: its hashes commit to what the records carry, and none of them is the
root. -/
structure Grown (l : List α) : Prop where
  head : ∀ a ∈ l.head?, link a = root
  linked : Linked link hash l
  committed : ∀ a ∈ l, ∀ b ∈ l, hash a = hash b → link a = link b
  rooted : ∀ a ∈ l, hash a ≠ root

/-- What the next record carries. -/
def top (l : List α) : H := (l.getLast?.map hash).getD root

variable {link hash root} {l l' as bs cs : List α} {a b : α}

/-- Only what the records carry and their hashes matter. -/
theorem linked_congr (h : l.map (fun a => (link a, hash a)) = l'.map fun a => (link a, hash a)) :
    Linked link hash l ↔ Linked link hash l' := by
  have hmap : ∀ m : List α, Linked link hash m ↔ (m.map fun a => (link a, hash a)).IsChain fun x y => y.1 = x.2 :=
    fun m => (List.isChain_map (R := fun x y : H × H => y.1 = x.2) fun a => (link a, hash a)).symm
  rw [hmap, hmap, h]

theorem Grown.nil : Grown link hash root [] where
  head := by simp
  linked := List.isChain_nil
  committed := by simp
  rooted := by simp

theorem Linked.of_concat (h : Linked link hash (l ++ [a])) : Linked link hash l := List.IsChain.left_of_append h

theorem linked_concat (hl : Linked link hash l) : Linked link hash (l ++ [a]) ↔ ∀ b ∈ l.getLast?, link a = hash b := by
  rw [Linked, List.isChain_append]
  constructor
  · rintro ⟨-, -, hlast⟩ b hb
    exact hlast b hb a rfl
  · intro hlast
    refine ⟨hl, List.isChain_singleton a, fun b hb c hc => ?_⟩
    obtain rfl : a = c := Option.some.inj hc
    exact hlast b hb

theorem Grown.of_append (h : Grown link hash root (l ++ bs)) : Grown link hash root l where
  head := by
    intro a ha
    apply h.head
    rw [List.head?_append, ha]
    rfl
  linked := h.linked.left_of_append
  committed := fun a ha b hb => h.committed a (List.mem_append_left _ ha) b (List.mem_append_left _ hb)
  rooted := fun a ha => h.rooted a (List.mem_append_left _ ha)

/-- A record of a chain carries the root, or the hash of another record of the chain. -/
theorem Grown.link_eq (h : Grown link hash root (as ++ a :: bs)) : link a = top hash root as := by
  cases has : as.getLast? with
  | none =>
    obtain rfl := List.getLast?_eq_none_iff.mp has
    exact h.head a rfl
  | some b =>
    rw [top, has]
    obtain ⟨-, -, hlast⟩ := List.isChain_append.mp h.linked
    exact hlast b has a rfl

/-- After records, the next one carries the hash of one of them. -/
theorem exists_top_append_cons (as : List α) (b : α) (bs : List α) :
    ∃ c ∈ b :: bs, top hash root (as ++ b :: bs) = hash c := by
  have hne : b :: bs ≠ [] := List.cons_ne_nil b bs
  refine ⟨(b :: bs).getLast hne, List.getLast_mem hne, ?_⟩
  rw [top, List.getLast?_append_of_ne_nil as hne, List.getLast?_eq_some_getLast hne]
  rfl

/-- **The hashes of a chain are distinct.** The first record of the chain with the hash of a later
one would carry what the later one carries. -/
theorem Grown.nodup (h : Grown link hash root l) : (l.map hash).Nodup := by
  induction l using List.reverseRecOn with
  | nil => exact List.nodup_nil
  | append_singleton l a ih =>
    have hnodup := ih h.of_append
    rw [List.map_append]
    refine List.nodup_append_comm.mp (List.nodup_cons.mpr ⟨fun hmem => ?_, hnodup⟩)
    obtain ⟨b, hb, hhash⟩ := List.mem_map.mp hmem
    have hlink := h.committed b (List.mem_append_left _ hb) a (List.mem_append_right _ (List.mem_singleton_self a)) hhash
    obtain ⟨as, bs, rfl⟩ := List.append_of_mem hb
    -- the record before the new one has the hash that the other one carries
    obtain ⟨c, hc, htop⟩ : ∃ c ∈ b :: bs, top hash root (as ++ b :: bs) = hash c := exists_top_append_cons as b bs
    rw [h.of_append.link_eq, h.link_eq, htop] at hlink
    cases as.eq_nil_or_concat with
    | inl hnil =>
      subst hnil
      exact h.rooted c (List.mem_append_left _ (List.mem_append_right _ hc)) hlink.symm
    | inr hconcat =>
      obtain ⟨as', d, rfl⟩ := hconcat
      have hd : hash d = hash c := by simpa [top] using hlink
      rw [List.map_append] at hnodup
      apply List.disjoint_of_nodup_append hnodup (a := hash d)
      · exact List.mem_map.mpr ⟨d, by simp, rfl⟩
      · exact List.mem_map.mpr ⟨c, hc, hd.symm⟩

/-- **A record added to a chain.** -/
theorem Grown.concat (h : Grown link hash root l) (hlink : link a = top hash root l)
    (hcommitted : ∀ b ∈ l, hash a = hash b → link a = link b) (hroot : hash a ≠ root) :
    Grown link hash root (l ++ [a]) where
  head := by
    cases l with
    | nil =>
      intro b hb
      obtain rfl : a = b := Option.some.inj hb
      exact hlink
    | cons b l => exact h.head
  linked := by
    apply (linked_concat h.linked).mpr
    intro b hb
    rw [hlink, top, hb]
    rfl
  committed := by
    have hnew : ∀ b, b ∈ l ++ [a] → b ∈ l ∨ b = a := fun b hb => by simpa using hb
    intro b hb c hc heq
    rcases hnew b hb with hold | rfl
    · rcases hnew c hc with hold' | rfl
      · exact h.committed b hold c hold' heq
      · exact (hcommitted b hold heq.symm).symm
    · rcases hnew c hc with hold' | rfl
      · exact hcommitted c hold' heq
      · rfl
  rooted := by
    intro b hb
    rcases List.mem_append.mp hb with hb | hb
    · exact h.rooted b hb
    · exact List.mem_singleton.mp hb ▸ hroot

theorem Grown.link_cons (h : Grown link hash root (as ++ a :: b :: bs)) : link b = hash a := by
  have hsplit : Grown link hash root ((as ++ [a]) ++ b :: bs) := by simpa using h
  simpa [top] using hsplit.link_eq

/-- **A deleted record** is missed, unless it is the first or the last. -/
theorem Grown.linked_delete_iff (h : Grown link hash root (as ++ a :: bs)) (hbs : bs ≠ []) :
    Linked link hash (as ++ bs) ↔ as = [] := by
  obtain ⟨b, bs, rfl⟩ := List.exists_cons_of_ne_nil hbs
  constructor
  · intro hlinked
    cases as.eq_nil_or_concat with
    | inl hnil => exact hnil
    | inr hconcat =>
      -- the record behind the gap carries the hash of the deleted one, not of the one before the gap
      obtain ⟨as', c, rfl⟩ := hconcat
      obtain ⟨-, -, hlast⟩ := List.isChain_append.mp hlinked
      have hc : link b = hash c := hlast c (by simp) b rfl
      have ha : link b = hash a := h.link_cons
      have hnodup := h.nodup
      rw [List.map_append] at hnodup
      exact absurd (List.mem_map.mpr ⟨a, List.mem_cons_self, rfl⟩)
        (List.disjoint_of_nodup_append hnodup (List.mem_map.mpr ⟨c, by simp, hc.symm.trans ha⟩))
  · rintro rfl
    exact h.linked.tail

/-- **Two exchanged records** are noticed. The records in their places may differ in what is not
linked. -/
theorem Grown.not_linked_exchange (h : Grown link hash root (as ++ a :: (bs ++ b :: cs))) {a' b' : α}
    (ha : link a' = link a) (hb : hash b' = hash b) : ¬ Linked link hash (as ++ b' :: (bs ++ a' :: cs)) := by
  intro hlinked
  have hnodup := h.nodup
  rw [List.map_append, List.map_cons, List.map_append, List.map_cons] at hnodup
  cases bs with
  | nil =>
    -- the first record would carry the hash of the second one
    have hlink : link a = hash b := by
      obtain ⟨-, htail, -⟩ := List.isChain_append.mp hlinked
      rw [← ha, ← hb]
      exact (List.isChain_cons_cons.mp htail).1
    rw [h.link_eq] at hlink
    cases as.eq_nil_or_concat with
    | inl hnil =>
      subst hnil
      exact h.rooted b (by simp) hlink.symm
    | inr hconcat =>
      obtain ⟨as', c, rfl⟩ := hconcat
      have hc : hash c = hash b := by simpa [top] using hlink
      refine List.disjoint_of_nodup_append hnodup (List.mem_map.mpr ⟨c, by simp, rfl⟩) ?_
      rw [hc]
      simp
  | cons c bs =>
    -- the record behind the first place carries the hash of the first record, not of the second one
    have hfirst : link c = hash a := h.link_cons
    have hlink : link c = hash b := by
      obtain ⟨-, htail, -⟩ := List.isChain_append.mp hlinked
      rw [← hb]
      exact (List.isChain_cons_cons.mp htail).1
    obtain ⟨-, htail, -⟩ := List.nodup_append.mp hnodup
    apply (List.nodup_cons.mp htail).1
    rw [← hfirst, hlink]
    simp

end HashChain
