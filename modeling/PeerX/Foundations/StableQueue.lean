import Mathlib.Data.List.Basic
import Mathlib.Order.Lattice

/-!
# Stable queues

A queue in the order of a rank, in which an element takes its place behind those of its rank. Each
element has a stamp, that is higher the later it was put in: within a rank, the stamps grow.
-/

namespace StableQueue

variable {α ρ τ : Type} [LinearOrder ρ] [LinearOrder τ]

/-- The element takes its place before the first element of a higher rank. -/
def enqueue (rank : α → ρ) (a : α) (queue : List α) : List α :=
  queue.insertIdx (queue.findIdx fun b => rank a < rank b) a

/-- The element is before the other one. -/
def Before (rank : α → ρ) (stamp : α → τ) (a b : α) : Prop :=
  rank a < rank b ∨ rank a = rank b ∧ stamp a < stamp b

/-- The queue is in order. -/
def Ordered (rank : α → ρ) (stamp : α → τ) (queue : List α) : Prop := queue.Pairwise (Before rank stamp)

variable {rank : α → ρ} {stamp : α → τ} {a b : α} {queue queue' : List α}

theorem perm_enqueue : (enqueue rank a queue).Perm (a :: queue) :=
  List.perm_insertIdx a queue List.findIdx_le_length

@[simp] theorem length_enqueue : (enqueue rank a queue).length = queue.length + 1 := perm_enqueue.length_eq

@[simp] theorem mem_enqueue : b ∈ enqueue rank a queue ↔ b = a ∨ b ∈ queue :=
  perm_enqueue.mem_iff.trans List.mem_cons

/-- The element goes to the front, or behind the first one. -/
theorem enqueue_cons : enqueue rank a (b :: queue) =
    if rank a < rank b then a :: b :: queue else b :: enqueue rank a queue := by
  rw [enqueue, List.findIdx_cons]
  by_cases h : rank a < rank b <;> simp [h, enqueue]

/-- An element that is before another one is not of a higher rank. -/
theorem Before.rank_le (h : Before rank stamp a b) : rank a ≤ rank b := by
  rcases h with hlt | ⟨heq, -⟩
  · exact hlt.le
  · exact heq.le

/-- An element with a new stamp keeps the order. -/
theorem Ordered.enqueue (h : Ordered rank stamp queue) (hstamp : ∀ b ∈ queue, stamp b < stamp a) :
    Ordered rank stamp (enqueue rank a queue) := by
  induction queue with
  | nil => exact List.pairwise_singleton _ a
  | cons b queue ih =>
    obtain ⟨hfirst, hrest⟩ := List.pairwise_cons.mp h
    obtain ⟨hb, hothers⟩ := List.forall_mem_cons.mp hstamp
    rw [enqueue_cons]
    split
    next hlt =>
      -- every element from here on has a higher rank
      refine List.pairwise_cons.mpr ⟨List.forall_mem_cons.mpr ⟨.inl hlt, fun c hc => ?_⟩, h⟩
      exact .inl (hlt.trans_le (hfirst c hc).rank_le)
    next hnot =>
      refine List.pairwise_cons.mpr ⟨fun c hc => ?_, ih hrest hothers⟩
      rcases mem_enqueue.mp hc with rfl | hc
      · rcases lt_or_eq_of_le (not_lt.mp hnot) with hlt | heq
        · exact .inl hlt
        · exact .inr ⟨heq, hb⟩
      · exact hfirst c hc

theorem Ordered.sublist (h : Ordered rank stamp queue) (hsub : queue'.Sublist queue) : Ordered rank stamp queue' :=
  List.Pairwise.sublist hsub h

end StableQueue
