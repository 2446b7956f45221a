import Mathlib.Data.List.Infix

/-!
# Patterns with wildcards

A pattern is a list of tokens. A token stands for one character, for one character that may be
absent, or for any number of characters. A pattern matches a whole text.
-/

namespace Wildcards

/-- A token of a pattern, with the characters that it stands for. -/
inductive Token (α : Type) where
  | one (p : α → Bool)
  | optional (p : α → Bool)
  | many (p : α → Bool)

variable {α : Type}

/-- The rests of a text after some of its first characters, all of them of the kind. -/
def rests (p : α → Bool) : List α → List (List α)
  | [] => [[]]
  | x :: xs => (x :: xs) :: if p x then rests p xs else []

/-- The pattern matches the text. -/
def accepts : List (Token α) → List α → Bool
  | [], xs => xs.isEmpty
  | .one p :: ts, xs =>
    match xs with
    | [] => false
    | x :: xs => p x && accepts ts xs
  | .optional p :: ts, xs =>
    accepts ts xs ||
      match xs with
      | [] => false
      | x :: xs => p x && accepts ts xs
  | .many p :: ts, xs => (rests p xs).any (accepts ts)

/-- The token for any number of characters of all kinds. -/
def any : Token α := .many fun _ => true

/-- The token for a character. -/
def literal [DecidableEq α] (a : α) : Token α := .one fun x => decide (x = a)

variable {p : α → Bool} {t : Token α} {ts us : List (Token α)} {xs zs : List α}

theorem mem_rests : zs ∈ rests p xs ↔ ∃ ys, xs = ys ++ zs ∧ ∀ y ∈ ys, p y := by
  induction xs with
  | nil => simp [rests, and_comm]
  | cons x xs ih =>
    rw [rests, List.mem_cons]
    constructor
    · rintro (rfl | hmem)
      · exact ⟨[], rfl, by simp⟩
      · by_cases hx : p x
        · rw [if_pos hx] at hmem
          obtain ⟨ys, rfl, hys⟩ := ih.mp hmem
          exact ⟨x :: ys, rfl, List.forall_mem_cons.mpr ⟨hx, hys⟩⟩
        · simp [hx] at hmem
    · rintro ⟨ys, heq, hys⟩
      cases ys with
      | nil => exact .inl heq.symm
      | cons y ys =>
        obtain ⟨rfl, rfl⟩ := List.cons_eq_cons.mp heq
        obtain ⟨hx, hrest⟩ := List.forall_mem_cons.mp hys
        right
        rw [if_pos hx]
        exact ih.mpr ⟨ys, rfl, hrest⟩

@[simp] theorem accepts_nil : accepts ([] : List (Token α)) xs ↔ xs = [] := List.isEmpty_iff

theorem accepts_many_iff : accepts (.many p :: ts) xs ↔ ∃ ys zs, xs = ys ++ zs ∧ (∀ y ∈ ys, p y) ∧ accepts ts zs := by
  refine List.any_eq_true.trans ?_
  constructor
  · rintro ⟨zs, hmem, hzs⟩
    obtain ⟨ys, rfl, hys⟩ := mem_rests.mp hmem
    exact ⟨ys, zs, rfl, hys, hzs⟩
  · rintro ⟨ys, zs, rfl, hys, hzs⟩
    exact ⟨zs, mem_rests.mpr ⟨ys, rfl, hys⟩, hzs⟩

/-- The text results from the pattern when each star is replaced by some text, and every other
character stands for itself. -/
inductive Replaced (star : α) : List α → List α → Prop
  | nil : Replaced star [] []
  | star {cs xs : List α} (ys : List α) (rest : Replaced star cs xs) : Replaced star (star :: cs) (ys ++ xs)
  | char {cs xs : List α} {c : α} (hc : c ≠ star) (rest : Replaced star cs xs) : Replaced star (c :: cs) (c :: xs)

/-- The token of a character, when the stars stand for characters of a kind. -/
def starToken [DecidableEq α] (star : α) (p : α → Bool) (c : α) : Token α := if c = star then .many p else literal c

/-- A pattern with stars matches what it stands for, among the texts of the kind. -/
theorem accepts_stars [DecidableEq α] {star : α} {cs : List α} (h : ∀ x ∈ xs, p x) :
    accepts (cs.map (starToken star p)) xs ↔ Replaced star cs xs := by
  induction cs generalizing xs with
  | nil =>
    rw [List.map_nil, accepts_nil]
    constructor
    · rintro rfl
      exact .nil
    · intro hreplaced
      cases hreplaced
      rfl
  | cons c cs ih =>
    rw [List.map_cons, starToken]
    by_cases hc : c = star
    · subst hc
      rw [if_pos rfl, accepts_many_iff]
      constructor
      · rintro ⟨ys, zs, rfl, -, hzs⟩
        exact .star ys ((ih fun x hx => h x (List.mem_append_right _ hx)).mp hzs)
      · intro hreplaced
        cases hreplaced with
        | @star _ zs ys rest =>
          exact ⟨ys, zs, rfl, fun y hy => h y (List.mem_append_left _ hy),
            (ih fun x hx => h x (List.mem_append_right _ hx)).mpr rest⟩
        | char hc _ => exact absurd rfl hc
    · rw [if_neg hc]
      constructor
      · intro haccepts
        cases xs with
        | nil => cases haccepts
        | cons x xs =>
          obtain ⟨hx, hrest⟩ := Bool.and_eq_true_iff.mp haccepts
          obtain rfl := of_decide_eq_true hx
          exact .char hc ((ih fun y hy => h y (List.mem_cons_of_mem _ hy)).mp hrest)
      · intro hreplaced
        cases hreplaced with
        | star _ _ => exact absurd rfl hc
        | @char _ xs _ _ rest =>
          refine Bool.and_eq_true_iff.mpr ⟨decide_eq_true rfl, ?_⟩
          exact (ih fun y hy => h y (List.mem_cons_of_mem _ hy)).mpr rest

end Wildcards
