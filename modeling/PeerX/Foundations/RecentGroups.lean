import Mathlib.Data.List.Sort
import Mathlib.Data.List.Induction
import Mathlib.Data.List.Pairwise

/-!
# Most recent elements, gathered group by group

A feed shows the most recent elements of several groups. One way to choose them is to read a window
of the most recent elements of all, to go through the groups in some order, and to stop when there
are enough. That is right only in some cases: no group is gone through twice, no element that is
left out is more recent than one that is taken, and the window is large enough.

## Main results

* `mostRecent_take`: the first elements by recency are the most recent
* `exists_mem_page`: page after page, nothing is missed while later elements arrive
* `nodup_take_gathered_iff`: what is gathered has no repetition
* `mostRecent_gathered_iff`: what is gathered is most recent exactly when the groups are in order
-/

namespace RecentGroups

variable {α κ τ : Type} [LinearOrder τ]

/-- The elements of a list, most recent first. Those of one time stay in their order. -/
def byRecency (time : α → τ) (l : List α) : List α := l.insertionSort fun x y => time y ≤ time x

/-- The `k` most recent elements of a list, or all if there are fewer: each once, most recent
first, and no other element is more recent than one of them. -/
structure MostRecent (time : α → τ) (k : ℕ) (l s : List α) : Prop where
  nodup : s.Nodup
  subset : s ⊆ l
  sorted : s.Pairwise fun x y => time y ≤ time x
  length : s.length = min k l.length
  le : ∀ x ∈ l, x ∉ s → ∀ y ∈ s, time x ≤ time y

variable {time : α → τ} {k : ℕ} {l : List α}

theorem perm_byRecency (time : α → τ) (l : List α) : (byRecency time l).Perm l := List.perm_insertionSort _ _

theorem sorted_byRecency (time : α → τ) (l : List α) :
    (byRecency time l).Pairwise fun x y => time y ≤ time x := by
  have htotal : Std.Total fun x y => time y ≤ time x := ⟨fun x y => le_total (time y) (time x)⟩
  have htrans : IsTrans α fun x y => time y ≤ time x := ⟨fun _ _ _ hxy hyz => hyz.trans hxy⟩
  exact List.pairwise_insertionSort _ l

@[simp] theorem mem_byRecency {x : α} : x ∈ byRecency time l ↔ x ∈ l := (perm_byRecency time l).mem_iff

@[simp] theorem length_byRecency : (byRecency time l).length = l.length := (perm_byRecency time l).length_eq

theorem nodup_byRecency : (byRecency time l).Nodup ↔ l.Nodup := (perm_byRecency time l).nodup_iff

/-- The order by recency of the images of elements with the same times. -/
theorem map_byRecency {β : Type} (f : α → β) {time' : β → τ} (h : ∀ x ∈ l, time' (f x) = time x) :
    (byRecency time l).map f = byRecency time' (l.map f) :=
  List.map_insertionSort _ _ f l fun x hx y hy => by rw [h x hx, h y hy]

theorem forall₂_byRecency {β : Type} {R : β → α → Prop} {time' : β → τ} {l' : List β} (h : List.Forall₂ R l' l)
    (htime : ∀ x y, R x y → time' x = time y) : List.Forall₂ R (byRecency time' l') (byRecency time l) := by
  obtain ⟨hlength, hzip⟩ := List.forall₂_iff_zip.mp h
  -- both are the order by recency of the pairs
  have hfst : byRecency time' l' = (byRecency (fun p => time' p.1) (l'.zip l)).map Prod.fst := by
    rw [map_byRecency Prod.fst fun _ _ => rfl, List.map_fst_zip hlength.le]
  have hsnd : byRecency time l = (byRecency (fun p => time' p.1) (l'.zip l)).map Prod.snd := by
    rw [map_byRecency Prod.snd fun p hp => (htime p.1 p.2 (hzip hp)).symm, List.map_snd_zip hlength.ge]
  rw [hfst, hsnd, List.forall₂_map_left_iff, List.forall₂_map_right_iff, List.forall₂_same]
  exact fun p hp => hzip (mem_byRecency.mp hp)

/-- **The first elements by recency are the most recent.** -/
theorem mostRecent_take (time : α → τ) (k : ℕ) (hl : l.Nodup) : MostRecent time k l ((byRecency time l).take k) where
  nodup := (nodup_byRecency.mpr hl).sublist (List.take_sublist _ _)
  subset := fun _ hx => mem_byRecency.mp (List.mem_of_mem_take hx)
  sorted := (sorted_byRecency time l).sublist (List.take_sublist _ _)
  length := by rw [List.length_take, length_byRecency]
  le := by
    intro x hx hout y hy
    have hsorted := sorted_byRecency time l
    rw [← List.take_append_drop k (byRecency time l)] at hsorted
    have hmem : x ∈ byRecency time l := mem_byRecency.mpr hx
    rw [← List.take_append_drop k (byRecency time l), List.mem_append] at hmem
    exact (List.pairwise_append.mp hsorted).2.2 y hy x (hmem.resolve_left hout)

/-- Later elements come first, the others stay in their order. -/
theorem byRecency_append {news : List α} (h : ∀ x ∈ l, ∀ y ∈ news, time x < time y) :
    byRecency time (l ++ news) = byRecency time news ++ byRecency time l := by
  induction l with
  | nil => exact (List.append_nil _).symm
  | cons x l ih =>
    have hlater : ∀ y ∈ byRecency time news, ¬ time y ≤ time x := fun y hy =>
      (h x List.mem_cons_self y (mem_byRecency.mp hy)).not_ge
    have hinsert (ys zs : List α) (hys : ∀ y ∈ ys, ¬ time y ≤ time x) :
        (ys ++ zs).orderedInsert (fun x y => time y ≤ time x) x =
          ys ++ zs.orderedInsert (fun x y => time y ≤ time x) x := by
      induction ys with
      | nil => rfl
      | cons y ys ih =>
        rw [List.cons_append, List.orderedInsert_cons, if_neg (hys y List.mem_cons_self),
          ih fun z hz => hys z (List.mem_cons_of_mem _ hz), List.cons_append]
    change (byRecency time (l ++ news)).orderedInsert _ x = _
    rw [ih fun z hz => h z (List.mem_cons_of_mem _ hz), hinsert _ _ hlater]
    rfl

/-- Elements with distinct times come newest first in one order only. -/
theorem eq_byRecency {l' : List α} (hperm : l'.Perm l) (hsorted : l'.Pairwise fun x y => time y ≤ time x)
    (hdistinct : l.Pairwise fun x y => time x ≠ time y) : l' = byRecency time l := by
  refine List.Perm.eq_of_pairwise (fun x y hx hy hyx hxy => ?_) hsorted (sorted_byRecency time l)
    (hperm.trans (perm_byRecency time l).symm)
  have : Std.Symm fun x y => time x ≠ time y := ⟨fun _ _ => Ne.symm⟩
  by_contra hne
  exact hdistinct.forall (hperm.mem_iff.mp hx) (mem_byRecency.mp hy) hne (le_antisymm hxy hyx)

/-- **No element is missed between two pages** of a list that grows at its head. -/
theorem exists_mem_page {lists : ℕ → List α} (hgrow : ∀ i, lists i <:+ lists (i + 1)) {x : α} (hx : x ∈ lists 0)
    {limit n : ℕ} (hlast : (lists n).length ≤ (n + 1) * limit) :
    ∃ i ≤ n, x ∈ ((lists i).drop (i * limit)).take limit := by
  obtain ⟨_, after, hzero⟩ := List.append_of_mem hx
  have hsuffix (i : ℕ) : x :: after <:+ lists i := by
    induction i with
    | zero => exact ⟨_, hzero.symm⟩
    | succ i ih => exact ih.trans (hgrow i)
  choose before hbefore using hsuffix
  have hlength (i : ℕ) : (lists i).length = (before i).length + (after.length + 1) := by
    rw [← hbefore i, List.length_append, List.length_cons]
  -- the element is on the first page that does not end before it
  have hpage : ∃ i ≤ n, i * limit ≤ (before i).length ∧ (before i).length < (i + 1) * limit := by
    have hend : (before n).length < (n + 1) * limit := by
      have := hlength n
      omega
    clear hlast
    induction n with
    | zero => exact ⟨0, le_rfl, by omega, hend⟩
    | succ n ih =>
      by_cases hn : (before n).length < (n + 1) * limit
      · obtain ⟨i, hi, hin⟩ := ih hn
        exact ⟨i, by omega, hin⟩
      · have hle := (hgrow n).length_le
        rw [hlength, hlength] at hle
        exact ⟨n + 1, le_rfl, by omega, hend⟩
  obtain ⟨i, hi, hstart, hend⟩ := hpage
  refine ⟨i, hi, List.mem_of_getElem? (i := (before i).length - i * limit) ?_⟩
  rw [Nat.succ_mul] at hend
  rw [List.getElem?_take_of_lt (by omega), List.getElem?_drop, Nat.add_sub_cancel' hstart, ← hbefore i,
    List.getElem?_append_right le_rfl, Nat.sub_self]
  rfl

variable [DecidableEq κ] (group : α → κ)

/-- The elements of a window, group by group. -/
def gathered (ns : List κ) (window : List α) : List α := ns.flatMap fun n => window.filter fun x => group x = n

variable {group} {ns : List κ} {window : List α}

theorem mem_gathered {x : α} : x ∈ gathered group ns window ↔ x ∈ window ∧ group x ∈ ns := by
  simp [gathered, and_comm]

theorem gathered_append (ns ms : List κ) :
    gathered group (ns ++ ms) window = gathered group ns window ++ gathered group ms window :=
  List.flatMap_append

theorem gathered_singleton (n : κ) : gathered group [n] window = window.filter fun x => group x = n := by
  simp [gathered]

/-- **What is gathered has no repetition** when no group with elements comes again before there are
enough. -/
theorem nodup_take_gathered_iff (hwindow : window.Nodup) : ((gathered group ns window).take k).Nodup ↔
    ∀ before n after, ns = before ++ n :: after → n ∈ before → (gathered group before window).length < k →
      ∀ x ∈ window, group x ≠ n := by
  constructor
  · intro hnodup before n after hns hn hlength x hx hgroup
    -- the group is taken again, at least its first element
    obtain ⟨y, ys, hys⟩ := List.exists_cons_of_ne_nil (l := window.filter fun x => group x = n)
      (List.ne_nil_of_mem (List.mem_filter.mpr ⟨hx, decide_eq_true hgroup⟩))
    have hy : y ∈ window ∧ group y = n := by
      have hmem : y ∈ window.filter fun x => group x = n := hys ▸ List.mem_cons_self
      simpa using hmem
    have htwice : gathered group before window ++ [y] <+: (gathered group ns window).take k := by
      refine List.prefix_take_iff.mpr ⟨⟨ys ++ gathered group after window, ?_⟩, ?_⟩
      · rw [hns, List.append_cons before n after, gathered_append, gathered_append, gathered_singleton, hys]
        simp
      · rw [List.length_append, List.length_singleton]
        exact hlength
    have hdisjoint := List.nodup_append.mp (hnodup.sublist htwice.sublist)
    exact hdisjoint.2.2 y (mem_gathered.mpr ⟨hy.1, hy.2 ▸ hn⟩) y (List.mem_singleton_self y) rfl
  · intro hdistinct
    induction ns using List.reverseRecOn with
    | nil => simp [gathered]
    | append_singleton ns n ih =>
      rw [gathered_append, gathered_singleton, List.take_append]
      refine List.nodup_append.mpr ⟨ih ?_, ((hwindow.filter _).sublist (List.take_sublist _ _)), ?_⟩
      · rintro before m after rfl hm hlength
        exact hdistinct before m (after ++ [n]) (by simp) hm hlength
      · rintro x hx y hy rfl
        -- a second group with the key is empty, or comes too late
        obtain ⟨-, hkey⟩ := mem_gathered.mp (List.mem_of_mem_take hx)
        have hy' := List.mem_filter.mp (List.mem_of_mem_take hy)
        have hgroup : group x = n := of_decide_eq_true hy'.2
        refine hdistinct ns n [] rfl (hgroup ▸ hkey) ?_ x hy'.1 hgroup
        by_contra hlate
        rw [Nat.sub_eq_zero_of_le (not_lt.mp hlate), List.take_zero] at hy
        cases hy

/-- The first elements of some lists are those of the lists that are kept, when no other list
with elements comes before there are enough. -/
theorem take_flatMap_filter {β : Type} {f : β → List α} {p : β → Bool} {m : List β}
    (h : ∀ before b after, m = before ++ b :: after → p b = false → (before.flatMap f).length < k → f b = []) :
    (m.flatMap f).take k = ((m.filter p).flatMap f).take k := by
  induction m generalizing k with
  | nil => rfl
  | cons b m ih =>
    have hrest : (m.flatMap f).take (k - (f b).length) = ((m.filter p).flatMap f).take (k - (f b).length) := by
      refine ih fun before c after heq hc hlength => h (b :: before) c after (congrArg (b :: ·) heq) hc ?_
      rw [List.flatMap_cons, List.length_append]
      omega
    rw [List.flatMap_cons, List.take_append, hrest]
    cases hb : p b with
    | true => rw [List.filter_cons_of_pos hb, List.flatMap_cons, List.take_append]
    | false =>
      rw [List.filter_cons_of_neg (by simp [hb])]
      rcases Nat.eq_zero_or_pos k with rfl | hk
      · simp
      · simp [h [] b m rfl hb hk]

/-- The groups come in order, for the first `k` that are gathered: no group with elements comes
again before there are `k`, none of the others is more recent than one of these, and the window has
all the elements that are wanted, or `k` elements of the groups. -/
structure InOrder (time : α → τ) (group : α → κ) (k : ℕ) (ns : List κ) (wanted window : List α) : Prop where
  distinct : ∀ before n after, ns = before ++ n :: after → n ∈ before → (gathered group before window).length < k →
    ∀ x ∈ window, group x ≠ n
  recent : ∀ x ∈ (gathered group ns window).drop k, x ∉ (gathered group ns window).take k →
    ∀ y ∈ (gathered group ns window).take k, time x ≤ time y
  enough : wanted.length ≤ (window.filter fun x => group x ∈ ns).length ∨
    k ≤ (window.filter fun x => group x ∈ ns).length

/-- What is gathered without repetition is the part of the window that has the keys. -/
theorem length_gathered_of_nodup (hwindow : window.Nodup) (h : (gathered group ns window).Nodup) :
    (gathered group ns window).length = (window.filter fun x => group x ∈ ns).length := by
  refine ((List.perm_ext_iff_of_nodup h (hwindow.filter _)).mpr fun x => ?_).length_eq
  rw [mem_gathered, List.mem_filter, decide_eq_true_iff]

/-- **What is gathered is most recent** exactly when the groups come in order. -/
theorem mostRecent_gathered_iff {m : ℕ} (hwindow : MostRecent time m l window) :
    MostRecent time k (l.filter fun x => group x ∈ ns) (byRecency time ((gathered group ns window).take k)) ↔
      InOrder time group k ns (l.filter fun x => group x ∈ ns) window := by
  have hkeys : ∀ x ∈ (gathered group ns window).take k, x ∈ window.filter fun x => group x ∈ ns := by
    intro x hx
    simpa using mem_gathered.mp (List.mem_of_mem_take hx)
  have hkept : (window.filter fun x => group x ∈ ns) ⊆ l.filter fun x => group x ∈ ns :=
    List.filter_subset _ hwindow.subset
  constructor
  · intro h
    have hnodup : ((gathered group ns window).take k).Nodup := nodup_byRecency.mp h.nodup
    refine ⟨(nodup_take_gathered_iff hwindow.nodup).mp hnodup, ?_, ?_⟩
    · intro x hx hout y hy
      have hfollowed : x ∈ l.filter fun x => group x ∈ ns :=
        hkept (by simpa using mem_gathered.mp (List.mem_of_mem_drop hx))
      exact h.le x hfollowed (fun hmem => hout (mem_byRecency.mp hmem)) y (mem_byRecency.mpr hy)
    · have hlength := h.length
      rw [length_byRecency] at hlength
      rcases le_or_gt k (gathered group ns window).length with hk | hk
      · rw [← List.length_take_of_le hk]
        exact .inr (List.subperm_of_subset hnodup hkeys).length_le
      · rw [List.take_of_length_le hk.le] at hlength hnodup
        rw [← length_gathered_of_nodup hwindow.nodup hnodup]
        omega
  · intro h
    have hnodup : ((gathered group ns window).take k).Nodup :=
      (nodup_take_gathered_iff hwindow.nodup).mpr h.distinct
    refine ⟨nodup_byRecency.mpr hnodup, fun x hx => hkept (hkeys x (mem_byRecency.mp hx)), sorted_byRecency _ _, ?_, ?_⟩
    · rw [length_byRecency]
      rcases le_or_gt k (gathered group ns window).length with hk | hk
      · have hle := (List.subperm_of_subset hnodup fun x hx => hkept (hkeys x hx)).length_le
        rw [List.length_take_of_le hk] at hle ⊢
        exact (min_eq_left hle).symm
      · -- the window has no more elements of the groups, so the list has none
        rw [List.take_of_length_le hk.le] at hnodup ⊢
        have hlength := length_gathered_of_nodup hwindow.nodup hnodup
        have hle := (List.subperm_of_subset (hwindow.nodup.filter _) hkept).length_le
        have henough := h.enough
        omega
    · intro x hx hout y hy
      rw [mem_byRecency] at hout hy
      obtain ⟨hmem, hkey⟩ := List.mem_filter.mp hx
      by_cases hin : x ∈ window
      · have hgathered := mem_gathered.mpr ⟨hin, of_decide_eq_true hkey⟩
        rw [← List.take_append_drop k (gathered group ns window), List.mem_append] at hgathered
        exact h.recent x (hgathered.resolve_left hout) hout y hy
      · exact hwindow.le x hmem hin y (List.mem_of_mem_filter (hkeys y hy))

end RecentGroups
