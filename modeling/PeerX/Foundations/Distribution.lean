import Mathlib.Data.List.Perm.Subperm
import Mathlib.Data.List.Pairwise
import Mathlib.Data.List.Nodup
import Mathlib.Logic.Function.Basic
import Mathlib.Algebra.Order.BigOperators.Group.List
import Mathlib.Algebra.Order.Group.Nat
import Mathlib.Algebra.Ring.Nat

/-!
# Rows distributed over places

Rows lie at places, and each row may be assigned to one of them. When rows are only copied from
place to place, and every place ends up with rows that are assigned to it alone, then the number of
rows tells whether any was lost.
-/

namespace Distribution

variable {ρ ι : Type}

/-- The rows at all places. -/
def rowsAt (places : List ι) (d : ι → List ρ) : List ρ := places.flatMap d

theorem mem_rowsAt {places : List ι} {d : ι → List ρ} {r : ρ} : r ∈ rowsAt places d ↔ ∃ S ∈ places, r ∈ d S :=
  List.mem_flatMap

variable [DecidableEq ι]

/-- The rows after those of one place have changed. -/
theorem rowsAt_update {places : List ι} (hplaces : places.Nodup) {S : ι} (hS : S ∈ places) (d : ι → List ρ)
    (l : List ρ) : (rowsAt places (Function.update d S l) ++ d S).Perm (rowsAt places d ++ l) := by
  induction places with
  | nil => cases hS
  | cons T places ih =>
    obtain ⟨hT, hplaces⟩ := List.nodup_cons.mp hplaces
    by_cases hST : S = T
    · subst hST
      have hrest : rowsAt places (Function.update d S l) = rowsAt places d :=
        List.flatMap_congr fun U hU => Function.update_of_ne (ne_of_mem_of_not_mem hU hT) _ _
      change ((Function.update d S l S ++ rowsAt places (Function.update d S l)) ++ d S).Perm
        ((d S ++ rowsAt places d) ++ l)
      rw [hrest, Function.update_self, List.append_assoc, List.append_assoc]
      exact (List.perm_append_comm.append_left l).trans (List.perm_append_comm.trans (by
        rw [List.append_assoc]))
    · have hS := (List.mem_cons.mp hS).resolve_left hST
      change ((Function.update d S l T ++ rowsAt places (Function.update d S l)) ++ d S).Perm
        ((d T ++ rowsAt places d) ++ l)
      rw [Function.update_of_ne (Ne.symm hST), List.append_assoc, List.append_assoc]
      exact (ih hplaces hS).append_left (d T)

theorem rowsAt_replace {places : List ι} (hplaces : places.Nodup) {S : ι} (hS : S ∈ places) {d : ι → List ρ}
    {l old new rest : List ρ} (hd : (d S).Perm (old ++ rest)) (hl : l.Perm (new ++ rest)) :
    (rowsAt places (Function.update d S l) ++ old).Perm (rowsAt places d ++ new) := by
  have hupdate := rowsAt_update hplaces hS d l
  have hboth := (hd.symm.append_left _).trans (hupdate.trans (hl.append_left _))
  rw [← List.append_assoc, ← List.append_assoc] at hboth
  exact (List.perm_append_right_iff rest).mp hboth

/-- A row is moved from one place to another. -/
theorem rowsAt_move {places : List ι} (hplaces : places.Nodup) {A T : ι} (hA : A ∈ places) (hT : T ∈ places)
    (hne : A ≠ T) {d : ι → List ρ} {r : ρ} {l l' : List ρ} (hl : l.Perm (r :: d T)) (hl' : (d A).Perm (r :: l')) :
    (rowsAt places (Function.update (Function.update d T l) A l')).Perm (rowsAt places d) := by
  have hcopied : (rowsAt places (Function.update d T l)).Perm (r :: rowsAt places d) := by
    refine (List.perm_append_right_iff (d T)).mp ?_
    exact (rowsAt_update hplaces hT d l).trans ((hl.append_left _).trans List.perm_middle)
  have hremoved := rowsAt_update hplaces hA (Function.update d T l) l'
  rw [Function.update_of_ne hne] at hremoved
  -- the row is on both sides
  have hboth : (r :: rowsAt places (Function.update (Function.update d T l) A l')).Perm (r :: rowsAt places d) := by
    refine (List.perm_append_right_iff l').mp ?_
    exact List.perm_middle.symm.trans ((hl'.symm.append_left _).trans (hremoved.trans (hcopied.append_right l')))
  exact (List.perm_cons r).mp hboth

section Assigned

variable (assign : ρ → Option ι)

/-- The rows that are assigned to a place. -/
def assignedTo (L : List ρ) (S : ι) : List ρ := L.filter fun r => assign r = some S

variable {assign} {places : List ι} {L : List ρ} {r : ρ}

theorem mem_assignedTo {S : ι} : r ∈ assignedTo assign L S ↔ r ∈ L ∧ assign r = some S := by
  simp [assignedTo]

theorem sum_assignedTo (assign : ρ → Option ι) (hplaces : places.Nodup) (L : List ρ) :
    (places.map fun S => (assignedTo assign L S).length).sum =
      (L.filter fun r => ∃ S ∈ places, assign r = some S).length := by
  induction places with
  | nil => simp
  | cons T places ih =>
    obtain ⟨hT, hplaces⟩ := List.nodup_cons.mp hplaces
    rw [List.map_cons, List.sum_cons, ih hplaces]
    clear ih
    -- a row is assigned to one place at most
    induction L with
    | nil => rfl
    | cons r L ihL =>
      have hcases : ∀ S ∈ places, assign r = some S → assign r ≠ some T := by
        intro S hS hr hrT
        exact hT (Option.some.inj (hrT.symm.trans hr) ▸ hS)
      simp only [assignedTo, List.filter_cons, decide_eq_true_eq] at ihL ⊢
      by_cases hrT : assign r = some T
      · have hnot : ¬ ∃ S ∈ places, assign r = some S := fun ⟨S, hS, hr⟩ => hcases S hS hr hrT
        have hsome : ∃ S ∈ T :: places, assign r = some S := ⟨T, List.mem_cons_self, hrT⟩
        rw [if_pos hrT, if_neg hnot, if_pos hsome, List.length_cons, List.length_cons]
        omega
      · by_cases hother : ∃ S ∈ places, assign r = some S
        · have hsome : ∃ S ∈ T :: places, assign r = some S :=
            have ⟨S, hS, hr⟩ := hother
            ⟨S, List.mem_cons_of_mem _ hS, hr⟩
          rw [if_neg hrT, if_pos hother, if_pos hsome, List.length_cons, List.length_cons]
          omega
        · have hnone : ¬ ∃ S ∈ T :: places, assign r = some S := by
            rintro ⟨S, hS, hr⟩
            rcases List.mem_cons.mp hS with rfl | hS
            · exact hrT hr
            · exact hother ⟨S, hS, hr⟩
          rw [if_neg hrT, if_neg hother, if_neg hnone]
          exact ihL

/-- No row has been lost: when each place has different rows, all of them old ones that are
assigned to it, and there are as many rows as before, then every old row is assigned to a place, and
the place has it. -/
theorem perm_of_placed (hplaces : places.Nodup) {d' : ι → List ρ} (hnodup : ∀ S ∈ places, (d' S).Nodup)
    (hplaced : ∀ S ∈ places, ∀ r ∈ d' S, r ∈ L ∧ assign r = some S)
    (hcount : (rowsAt places d').length = L.length) :
    (∀ r ∈ L, ∃ S ∈ places, assign r = some S) ∧ ∀ S ∈ places, (d' S).Perm (assignedTo assign L S) := by
  have hsub : ∀ S ∈ places, (d' S).Subperm (assignedTo assign L S) := fun S hS =>
    List.subperm_of_subset (hnodup S hS) fun r hr => mem_assignedTo.mpr (hplaced S hS r hr)
  have hsum : (rowsAt places d').length = (places.map fun S => (d' S).length).sum := List.length_flatMap
  have hassigned := sum_assignedTo assign hplaces L
  have hle : (places.map fun S => (d' S).length).sum ≤ (places.map fun S => (assignedTo assign L S).length).sum :=
    List.sum_le_sum fun S hS => (hsub S hS).length_le
  have hfilter := List.length_filter_le (fun r => decide (∃ S ∈ places, assign r = some S)) L
  refine ⟨fun r hr => ?_, fun S hS => (hsub S hS).perm_of_length_le ?_⟩
  · have hall : L.filter (fun r => decide (∃ S ∈ places, assign r = some S)) = L :=
      List.filter_sublist.eq_of_length_le (by omega)
    exact of_decide_eq_true (List.filter_eq_self.mp hall r hr)
  · by_contra hless
    have hlt : (places.map fun S => (d' S).length).sum < (places.map fun S => (assignedTo assign L S).length).sum :=
      List.sum_lt_sum _ _ (fun S hS => (hsub S hS).length_le) ⟨S, hS, not_le.mp hless⟩
    omega

/-- Rows of different places that are assigned to one place have different keys, when the rows
assigned to it have. -/
theorem key_ne_of_nodup {κ : Type} {key : ρ → κ} {d : ι → List ρ} {T : ι}
    (hnodup : ((assignedTo assign (rowsAt places d) T).map key).Nodup) {A Q : ι} (hA : A ∈ places) (hQ : Q ∈ places)
    (hne : A ≠ Q) {r q : ρ} (hr : r ∈ d A) (hq : q ∈ d Q) (hrT : assign r = some T) (hqT : assign q = some T) :
    key r ≠ key q := by
  rw [assignedTo, rowsAt, List.filter_flatMap, List.map_flatMap, List.nodup_flatMap] at hnodup
  have hsymm : Std.Symm (Function.onFun List.Disjoint fun S =>
      ((d S).filter fun r => assign r = some T).map key) := ⟨fun _ _ h k hk hk' => h hk' hk⟩
  have hdisjoint := hnodup.2.forall hA hQ hne
  intro heq
  refine hdisjoint (List.mem_map_of_mem (List.mem_filter.mpr ⟨hr, by simpa using hrT⟩)) ?_
  rw [heq]
  exact List.mem_map_of_mem (List.mem_filter.mpr ⟨hq, by simpa using hqT⟩)

end Assigned

end Distribution
