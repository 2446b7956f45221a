import Mathlib.Data.Finset.Card
import Mathlib.Data.List.Dedup
import Mathlib.Logic.Relation

/-!
# Searches with a worklist

A search keeps the nodes that it found and a queue of those it has not looked at. It takes a node
from the queue, notes the successors that it has not found so far, and queues them. Successors may
be unavailable, and then the search fails.

## Main results

* `search_nil`, `search_cons`: the loop of the search
* `mem_of_search_eq_ok`: a search finds what the steps lead to
* `search_eq_ok_iff`: when a search succeeds
* `nodup_search`: a search finds each node once
-/

namespace Worklist

/-- The successors of a node, or why they are unavailable. The successors are among finitely
many nodes. -/
structure Successors (α ε : Type) where
  next : α → Except ε (List α)
  nodes : List α
  next_mem : ∀ x ys, next x = .ok ys → ∀ y ∈ ys, y ∈ nodes

variable {α ε : Type}

/-- The second node is a successor of the first. -/
def Successors.Step (g : Successors α ε) (x y : α) : Prop := ∃ ys, g.next x = .ok ys ∧ y ∈ ys

/-- Steps lead from the first node to the second. -/
def Successors.Reaches (g : Successors α ε) : α → α → Prop := Relation.ReflTransGen g.Step

variable [DecidableEq α]

/-- The nodes that were not found so far are found, and queued. -/
def note (queue found : List α) : List α → List α × List α
  | [] => (queue, found)
  | y :: ys => if y ∈ found then note queue found ys else note (queue ++ [y]) (found ++ [y]) ys

namespace Successors

variable (g : Successors α ε)

/-- The search, with a bound on the number of the nodes that it looks at. -/
def walk : ℕ → List α → List α → Except ε (List α)
  | 0, _, found => .ok found
  | _ + 1, [], found => .ok found
  | n + 1, x :: queue, found =>
    match g.next x with
    | .error e => .error e
    | .ok ys => walk n (note queue found ys).1 (note queue found ys).2

/-- The search from a queue, with the nodes found so far. -/
def search (queue found : List α) : Except ε (List α) := g.walk (queue.length + g.nodes.length) queue found

section Note

variable {queue found ys : List α} {y : α}

theorem mem_note_found : y ∈ (note queue found ys).2 ↔ y ∈ found ∨ y ∈ ys := by
  induction ys generalizing queue found with
  | nil => simp [note]
  | cons z ys ih =>
    rw [note]
    split
    next hz =>
      rw [ih, List.mem_cons]
      -- the successor is found already
      constructor
      · rintro (h | h)
        · exact .inl h
        · exact .inr (.inr h)
      · rintro (h | rfl | h)
        · exact .inl h
        · exact .inl hz
        · exact .inr h
    next => rw [ih, List.mem_append, List.mem_singleton, List.mem_cons, or_assoc]

theorem subset_note_queue (h : y ∈ queue) : y ∈ (note queue found ys).1 := by
  induction ys generalizing queue found with
  | nil => exact h
  | cons z ys ih =>
    rw [note]
    split
    · exact ih h
    · exact ih (List.mem_append_left _ h)

theorem mem_note_queue (h : y ∈ (note queue found ys).2) : y ∈ found ∨ y ∈ (note queue found ys).1 := by
  induction ys generalizing queue found with
  | nil => exact .inl h
  | cons z ys ih =>
    rw [note] at h ⊢
    split at h
    next hz => simpa [hz] using ih h
    next hz =>
      rw [if_neg hz]
      rcases ih h with hfound | hqueue
      · rcases List.mem_append.mp hfound with hold | hnew
        · exact .inl hold
        · right
          apply subset_note_queue
          exact List.mem_append_right _ hnew
      · exact .inr hqueue

/-- The nodes that are left to look at. -/
def pending (queue found : List α) : ℕ := queue.length + (g.nodes.toFinset \ found.toFinset).card

variable {g}

theorem pending_note (queue found : List α) (h : ∀ y ∈ ys, y ∈ g.nodes) :
    g.pending (note queue found ys).1 (note queue found ys).2 ≤ g.pending queue found := by
  induction ys generalizing queue found with
  | nil => exact le_rfl
  | cons z ys ih =>
    obtain ⟨hz, hys⟩ := List.forall_mem_cons.mp h
    rw [note]
    split
    next => exact ih _ _ hys
    next hnew =>
      refine (ih _ _ hys).trans ?_
      have hmem : z ∈ g.nodes.toFinset \ found.toFinset := by simp [hz, hnew]
      have hrest : g.nodes.toFinset \ (found ++ [z]).toFinset = (g.nodes.toFinset \ found.toFinset).erase z := by
        ext y
        simp only [Finset.mem_sdiff, List.mem_toFinset, List.mem_append, List.mem_singleton, Finset.mem_erase]
        tauto
      have hpos := Finset.card_pos.mpr ⟨z, hmem⟩
      simp only [pending, hrest, Finset.card_erase_of_mem hmem, List.length_append, List.length_singleton]
      omega

end Note

variable {g} {queue found ys : List α} {x y start : α} {n m : ℕ} {e : ε}

/-- A bound that allows for the nodes that are left does not matter. -/
theorem walk_eq_walk (hn : g.pending queue found ≤ n) (hm : g.pending queue found ≤ m) :
    g.walk n queue found = g.walk m queue found := by
  induction n generalizing m queue found with
  | zero =>
    have hnil : queue = [] := by
      apply List.eq_nil_of_length_eq_zero
      simp only [pending] at hn
      omega
    subst hnil
    cases m <;> rfl
  | succ n ih =>
    cases queue with
    | nil => cases m <;> rfl
    | cons x queue =>
      have hcount : g.pending (x :: queue) found = g.pending queue found + 1 := by
        simp only [pending, List.length_cons]
        omega
      obtain ⟨m, rfl⟩ : ∃ k, m = k + 1 := ⟨m - 1, by omega⟩
      rw [walk, walk]
      cases hnext : g.next x with
      | error e => rfl
      | ok ys =>
        have hle := pending_note queue found (g.next_mem x ys hnext)
        exact ih (by omega) (by omega)

theorem pending_le : g.pending queue found ≤ queue.length + g.nodes.length := by
  have hcard : (g.nodes.toFinset \ found.toFinset).card ≤ g.nodes.length :=
    (Finset.card_le_card Finset.sdiff_subset).trans (List.toFinset_card_le _)
  simp only [pending]
  omega

@[simp] theorem search_nil : g.search [] found = .ok found := by
  rw [search]
  cases ([] : List α).length + g.nodes.length <;> rfl

/-- **The loop of the search.** -/
theorem search_cons : g.search (x :: queue) found =
    match g.next x with
    | .error e => .error e
    | .ok ys => g.search (note queue found ys).1 (note queue found ys).2 := by
  have hsucc : (x :: queue).length + g.nodes.length = (queue.length + g.nodes.length) + 1 := by
    simp only [List.length_cons]
    omega
  rw [search, hsucc, walk]
  cases hnext : g.next x with
  | error e => rfl
  | ok ys =>
    have hle := pending_note queue found (g.next_mem x ys hnext)
    exact walk_eq_walk (hle.trans pending_le) pending_le

/-- The state of a search: what is found is reached, and what is found and not queued has its
successors found. -/
structure Frontier (g : Successors α ε) (start : α) (queue found : List α) : Prop where
  start_found : start ∈ found
  reached : ∀ y ∈ found, g.Reaches start y
  queue_found : ∀ y ∈ queue, y ∈ found
  closed : ∀ y ∈ found, y ∈ queue ∨ ∃ ys, g.next y = .ok ys ∧ ∀ z ∈ ys, z ∈ found

omit [DecidableEq α] in
theorem Frontier.new (g : Successors α ε) (start : α) : Frontier g start [start] [start] where
  start_found := List.mem_singleton_self start
  reached := fun y hy => by
    obtain rfl := List.mem_singleton.mp hy
    exact Relation.ReflTransGen.refl
  queue_found := fun _ hy => hy
  closed := fun _ hy => .inl hy

omit [DecidableEq α] in
theorem Frontier.reached_head (h : Frontier g start (x :: queue) found) : g.Reaches start x :=
  h.reached x (h.queue_found x List.mem_cons_self)

/-- One node looked at. -/
theorem Frontier.visit (h : Frontier g start (x :: queue) found) (hnext : g.next x = .ok ys) :
    Frontier g start (note queue found ys).1 (note queue found ys).2 where
  start_found := mem_note_found.mpr (.inl h.start_found)
  reached := by
    intro y hy
    rcases mem_note_found.mp hy with hold | hnew
    · exact h.reached y hold
    · exact h.reached_head.tail ⟨ys, hnext, hnew⟩
  queue_found := by
    -- the new nodes are queued and found together, whatever the queue was
    suffices hsub : ∀ (zs queue found : List α), (∀ y ∈ queue, y ∈ found) →
        ∀ y ∈ (note queue found zs).1, y ∈ (note queue found zs).2 from
      hsub ys queue found fun y hy => h.queue_found y (List.mem_cons_of_mem _ hy)
    intro zs
    induction zs with
    | nil => exact fun _ _ hsub => hsub
    | cons z zs ih =>
      intro queue found hsub
      rw [note]
      split
      · exact ih queue found hsub
      · refine ih _ _ fun y hy => ?_
        rcases List.mem_append.mp hy with hy | hy
        · exact List.mem_append_left _ (hsub y hy)
        · exact List.mem_append_right _ hy
  closed := by
    intro y hy
    rcases mem_note_queue hy with hold | hqueued
    · rcases h.closed y hold with hqueue | ⟨zs, hzs, hfound⟩
      · -- the node at the head is closed now: its successors have been found
        rcases List.mem_cons.mp hqueue with rfl | hqueue
        · exact .inr ⟨ys, hnext, fun z hz => mem_note_found.mpr (.inr hz)⟩
        · exact .inl (subset_note_queue hqueue)
      · exact .inr ⟨zs, hzs, fun z hz => mem_note_found.mpr (.inl (hfound z hz))⟩
    · exact .inl hqueued

omit [DecidableEq α] in
/-- A search that has an empty queue has found what is reached, and looked at it. -/
theorem Frontier.complete (h : Frontier g start [] found) :
    (∀ y, y ∈ found ↔ g.Reaches start y) ∧ ∀ y ∈ found, ∃ ys, g.next y = .ok ys := by
  have hclosed : ∀ y ∈ found, ∃ ys, g.next y = .ok ys ∧ ∀ z ∈ ys, z ∈ found := fun y hy =>
    (h.closed y hy).resolve_left (List.not_mem_nil)
  refine ⟨fun y => ⟨h.reached y, fun hreach => ?_⟩, fun y hy => ?_⟩
  · induction hreach with
    | refl => exact h.start_found
    | tail _ hstep ih =>
      obtain ⟨ys, hys, hmem⟩ := hstep
      obtain ⟨zs, hzs, hfound⟩ := hclosed _ ih
      obtain rfl : ys = zs := Except.ok.inj (hys.symm.trans hzs)
      exact hfound _ hmem
  · obtain ⟨ys, hys, -⟩ := hclosed y hy
    exact ⟨ys, hys⟩

/-- A whole search: it finds what is reached, all of it with successors, or it fails at what is
reached. -/
theorem Frontier.search (h : Frontier g start queue found) :
    match g.search queue found with
    | .ok all => (∀ y, y ∈ all ↔ g.Reaches start y) ∧ ∀ y ∈ all, ∃ ys, g.next y = .ok ys
    | .error e => ∃ y, g.Reaches start y ∧ g.next y = .error e := by
  induction hn : g.pending queue found using Nat.strong_induction_on generalizing queue found with
  | h n ih =>
    cases queue with
    | nil =>
      rw [search_nil]
      exact h.complete
    | cons x queue =>
      rw [search_cons]
      cases hnext : g.next x with
      | error e => exact ⟨x, h.reached_head, hnext⟩
      | ok ys =>
        have hle := pending_note queue found (g.next_mem x ys hnext)
        have hlt : g.pending (note queue found ys).1 (note queue found ys).2 < n := by
          simp only [pending, List.length_cons] at hn hle ⊢
          omega
        exact ih _ hlt (h.visit hnext) rfl

variable {all : List α}

/-- **A search finds what the steps lead to.** -/
theorem mem_of_search_eq_ok (h : g.search [start] [start] = .ok all) : y ∈ all ↔ g.Reaches start y := by
  have hsearch := (Frontier.new g start).search
  rw [h] at hsearch
  exact hsearch.1 y

/-- **A search succeeds when what the steps lead to has its successors available.** -/
theorem search_eq_ok_iff : (∃ all, g.search [start] [start] = .ok all) ↔
    ∀ y, g.Reaches start y → ∃ ys, g.next y = .ok ys := by
  have hsearch := (Frontier.new g start).search
  constructor
  · rintro ⟨all, h⟩ y hy
    rw [h] at hsearch
    exact hsearch.2 y ((hsearch.1 y).mpr hy)
  · intro h
    cases hs : g.search [start] [start] with
    | ok all => exact ⟨all, rfl⟩
    | error e =>
      rw [hs] at hsearch
      obtain ⟨y, hy, herror⟩ := hsearch
      obtain ⟨ys, hys⟩ := h y hy
      rw [hys] at herror
      cases herror

omit g start in
theorem nodup_note (h : found.Nodup) : (note queue found ys).2.Nodup := by
  induction ys generalizing queue found with
  | nil => exact h
  | cons y ys ih =>
    rw [note]
    split
    · exact ih h
    next hnew =>
      refine ih (List.nodup_append.mpr ⟨h, List.nodup_singleton y, ?_⟩)
      rintro x hx z hz rfl
      exact hnew (List.mem_singleton.mp hz ▸ hx)

/-- **A search finds each node once.** -/
theorem nodup_search (h : found.Nodup) (hall : g.search queue found = .ok all) : all.Nodup := by
  have hwalk : ∀ n queue found, found.Nodup → ∀ all, g.walk n queue found = .ok all → all.Nodup := by
    intro n
    induction n with
    | zero =>
      rintro queue found h _ ⟨⟩
      exact h
    | succ n ih =>
      intro queue found h all hall
      cases queue with
      | nil =>
        obtain rfl := Except.ok.inj hall
        exact h
      | cons x queue =>
        rw [walk] at hall
        cases hnext : g.next x with
        | error e =>
          rw [hnext] at hall
          cases hall
        | ok ys =>
          rw [hnext] at hall
          exact ih _ _ (nodup_note h) all hall
  exact hwalk _ queue found h all hall

end Successors

end Worklist
