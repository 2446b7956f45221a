import PeerX.Foundations.Runs
import PeerX.Foundations.SortedRing
import PeerX.Sharding.Service

/-!
# Sharding: lookups on the hash ring

The ring is sorted by the hashes of its nodes whatever shards come and go, and equal hashes are in
the order in which their nodes came. So the binary search finds the node of a key, and a key changes
its shard only to one that comes, or from one that goes.

## Main results

* `searchRing_eq`: the position that the binary search finds
* `ShardMap.Sorted.consistentHash`: the shard of a key is that of its node
* `consistentHash_run`: lookups on the ring after any calls
* `removeShardFromRing_run`: a shard that has gone leaves no trace
-/

namespace Sharding

open Concurrency SortedRing

/-- A call that changes the ring. -/
inductive RingCall : Type
  | addShardToRing (shardId : String)
  | removeShardFromRing (shardId : String)

/-- The ring after a call. -/
def ringStep (env : Environment) (map : ShardMap) : RingCall → ShardMap
  | .addShardToRing shardId => map.addShardToRing env shardId
  | .removeShardFromRing shardId => map.removeShardFromRing shardId

/-- The ring is sorted by the hashes of its nodes. -/
def ShardMap.Sorted (map : ShardMap) : Prop := map.hashRing.Pairwise fun a b => a.hash ≤ b.hash

variable {env : Environment} {map : ShardMap} {shardId : String} {hash n : ℕ}

/-- **The position that the binary search finds**: the first one from which on the hashes are not
smaller, or the first one of all. The positions before `low` are too small and those behind `high`
are not; the index is the one behind `high`. -/
theorem searchRing_eq (hnodes : ∀ k, ∀ hk : k < map.hashRing.length, hash ≤ (map.hashRing[k]).hash ↔ n ≤ k) (fuel : ℕ)
    {low high index : ℤ} (hindex : index = if high + 1 < map.hashRing.length then high + 1 else 0) (hlow : 0 ≤ low)
    (hhigh : high < map.hashRing.length) (hn : low ≤ n) (hn' : n ≤ high + 1) (hfuel : high + 1 - low ≤ fuel) :
    map.searchRing hash fuel low high index = if n < map.hashRing.length then (n : ℤ) else 0 := by
  induction fuel generalizing low high index with
  | zero =>
    obtain rfl : high = n - 1 := by omega
    rw [ShardMap.searchRing, hindex, sub_add_cancel]
    simp only [Int.ofNat_lt]
  | succ fuel ih =>
    rw [ShardMap.searchRing]
    split
    next hle =>
      dsimp only
      have hmid : (((low + high) / 2).toNat : ℤ) = (low + high) / 2 := Int.toNat_of_nonneg (by omega)
      have hlt : ((low + high) / 2).toNat < map.hashRing.length := by omega
      have hcond : (∃ node ∈ map.hashRing[((low + high) / 2).toNat]?, hash ≤ node.hash) ↔
          n ≤ ((low + high) / 2).toNat := by
        rw [← hnodes _ hlt, List.getElem?_eq_getElem hlt]
        simp
      split
      next hfound =>
        -- the middle is not too small: it is the index behind the new interval
        have hnmid := hcond.mp hfound
        refine ih ?_ hlow (by omega) hn (by omega) (by omega)
        rw [sub_add_cancel, if_pos (by omega)]
      next hnot =>
        have hnmid := mt hcond.mpr hnot
        exact ih hindex (by omega) hhigh (by omega) hn' (by omega)
    next hle =>
      obtain rfl : high = n - 1 := by omega
      rw [hindex, sub_add_cancel]
      simp only [Int.ofNat_lt]

/-- **The shard of a key is that of its node.** The shard of a key on an empty ring is the empty
text. -/
theorem ShardMap.Sorted.consistentHash (h : map.Sorted) (key : String) : map.consistentHash env key =
    (lookup RingNode.hash map.hashRing (env.hashString key)).elim "" RingNode.shardId := by
  set n := map.hashRing.findIdx fun a => env.hashString key ≤ a.hash with hn
  have hnodes : ∀ k, ∀ hk : k < map.hashRing.length, env.hashString key ≤ (map.hashRing[k]).hash ↔ n ≤ k :=
    fun _ hk => le_hash_getElem_iff h hk
  have hle : n ≤ map.hashRing.length := List.findIdx_le_length
  have hindex : map.searchRing (env.hashString key) (map.hashRing.length + 1) 0 (map.hashRing.length - 1) 0 =
      if n < map.hashRing.length then (n : ℤ) else 0 := by
    refine searchRing_eq hnodes _ ?_ le_rfl (by omega) (by omega) (by omega) (by omega)
    rw [sub_add_cancel, if_neg (lt_irrefl _)]
  have hnat : (if n < map.hashRing.length then (n : ℤ) else 0).toNat = if n < map.hashRing.length then n else 0 := by
    split
    · exact Int.toNat_natCast _
    · rfl
  rw [lookup_eq_getElem?, ShardMap.consistentHash, hindex, hnat, ← hn]
  split
  next hnode => rw [hnode, Option.elim_none]
  next hnode => rw [hnode, Option.elim_some]

theorem sorted_addShardToRing (env : Environment) (map : ShardMap) (shardId : String) :
    (map.addShardToRing env shardId).Sorted := by
  have htotal : Std.Total fun a b : RingNode => a.hash ≤ b.hash := ⟨fun a b => le_total a.hash b.hash⟩
  have htrans : IsTrans RingNode fun a b => a.hash ≤ b.hash := ⟨fun _ _ _ => le_trans⟩
  exact List.pairwise_insertionSort _ _

theorem ShardMap.Sorted.removeShardFromRing (h : map.Sorted) (shardId : String) :
    (map.removeShardFromRing shardId).Sorted := List.Pairwise.filter _ h

/-- A call keeps the ring sorted. -/
theorem ShardMap.Sorted.ringStep (h : map.Sorted) (call : RingCall) : (ringStep env map call).Sorted := by
  cases call with
  | addShardToRing shardId => exact sorted_addShardToRing env map shardId
  | removeShardFromRing shardId => exact h.removeShardFromRing shardId

/-- The ring is sorted after any calls. -/
theorem sorted_run (env : Environment) (calls : List RingCall) : (run (ringStep env) {} calls).Sorted := by
  have hempty : ShardMap.Sorted {} := List.Pairwise.nil
  exact run_invariant' (fun map call h => h.ringStep call) hempty calls

/-- A shard that comes takes keys to itself only. -/
theorem consistentHash_addShardToRing (h : map.Sorted) (shardId key : String) :
    (map.addShardToRing env shardId).consistentHash env key = map.consistentHash env key ∨
      (map.addShardToRing env shardId).consistentHash env key = shardId := by
  rw [h.consistentHash, (sorted_addShardToRing env map shardId).consistentHash]
  rcases lookup_insertionSort h (ringNodes env shardId) (env.hashString key) with
    hsame | ⟨node, hnode, hlookup⟩
  · exact .inl (congrArg (Option.elim · "" RingNode.shardId) hsame)
  · right
    obtain ⟨i, -, rfl⟩ := List.mem_map.mp hnode
    exact congrArg (Option.elim · "" RingNode.shardId) hlookup

/-- A shard that goes takes its own keys from itself only. -/
theorem consistentHash_removeShardFromRing (h : map.Sorted) {key : String} (hkey : map.consistentHash env key ≠ shardId) :
    (map.removeShardFromRing shardId).consistentHash env key = map.consistentHash env key := by
  rw [h.consistentHash] at hkey ⊢
  rw [(h.removeShardFromRing shardId).consistentHash]
  cases hlookup : lookup RingNode.hash map.hashRing (env.hashString key) with
  | none =>
    obtain ⟨-, hhead⟩ := Option.or_eq_none_iff.mp hlookup
    have hnil : map.hashRing = [] := List.head?_eq_none_iff.mp hhead
    rw [ShardMap.removeShardFromRing, hnil]
    rfl
  | some node =>
    rw [hlookup] at hkey
    have hstays : decide (node.shardId ≠ shardId) = true := decide_eq_true hkey
    exact congrArg (Option.elim · "" RingNode.shardId) (lookup_filter hlookup hstays)

/-- **Lookups on the ring**, after any calls: the ring is sorted, the shard of a key is that of the
first node whose hash is not smaller, or of the first node of all, a shard that is added takes keys
to itself only, and one that is removed takes its own keys from itself only. -/
theorem consistentHash_run (env : Environment) (calls : List RingCall) (key : String) :
    (run (ringStep env) {} calls).Sorted ∧
      (run (ringStep env) {} calls).consistentHash env key =
        (((run (ringStep env) {} calls).hashRing.find? fun node => env.hashString key ≤ node.hash).or
          (run (ringStep env) {} calls).hashRing.head?).elim "" RingNode.shardId ∧
      ∀ shardId,
        ((run (ringStep env) {} (calls ++ [.addShardToRing shardId])).consistentHash env key =
            (run (ringStep env) {} calls).consistentHash env key ∨
          (run (ringStep env) {} (calls ++ [.addShardToRing shardId])).consistentHash env key = shardId) ∧
        ((run (ringStep env) {} calls).consistentHash env key ≠ shardId →
          (run (ringStep env) {} (calls ++ [.removeShardFromRing shardId])).consistentHash env key =
            (run (ringStep env) {} calls).consistentHash env key) := by
  have hsorted := sorted_run env calls
  refine ⟨hsorted, hsorted.consistentHash key, fun shardId => ⟨?_, fun hkey => ?_⟩⟩
  · rw [run_append]
    exact consistentHash_addShardToRing hsorted shardId key
  · rw [run_append]
    exact consistentHash_removeShardFromRing hsorted hkey

def RingCall.shard : RingCall → String
  | .addShardToRing shardId | .removeShardFromRing shardId => shardId

theorem filter_ringNodes (env : Environment) (shardId other : String) :
    (ringNodes env other).filter (fun node => node.shardId ≠ shardId) =
      if other = shardId then [] else ringNodes env other := by
  have hshard : ∀ node ∈ ringNodes env other, node.shardId = other := by
    intro node hnode
    obtain ⟨i, -, rfl⟩ := List.mem_map.mp hnode
    rfl
  split
  next heq => exact List.filter_eq_nil_iff.mpr fun node hnode => by simp [hshard node hnode, heq]
  next hne => exact List.filter_eq_self.mpr fun node hnode => by simp [hshard node hnode, hne]

/-- A call before a removal: a call about the shard that is removed does not matter. -/
theorem removeShardFromRing_ringStep (h : map.Sorted) (shardId : String) (call : RingCall) :
    (ringStep env map call).removeShardFromRing shardId =
      if call.shard = shardId then map.removeShardFromRing shardId
      else ringStep env (map.removeShardFromRing shardId) call := by
  have htotal : Std.Total fun a b : RingNode => a.hash ≤ b.hash := ⟨fun a b => le_total a.hash b.hash⟩
  have htrans : IsTrans RingNode fun a b => a.hash ≤ b.hash := ⟨fun _ _ _ => le_trans⟩
  cases call with
  | addShardToRing other =>
    have hring : ((map.hashRing ++ ringNodes env other).insertionSort fun a b => a.hash ≤ b.hash).filter
        (fun node => node.shardId ≠ shardId) = ((map.hashRing.filter fun node => node.shardId ≠ shardId) ++
          if other = shardId then [] else ringNodes env other).insertionSort fun a b => a.hash ≤ b.hash := by
      rw [filter_insertionSort, List.filter_append, filter_ringNodes]
    by_cases hother : other = shardId
    · rw [if_pos hother, List.append_nil, List.Pairwise.insertionSort_eq (List.Pairwise.filter _ h)] at hring
      exact (congrArg (fun ring => { map with hashRing := ring }) hring).trans (if_pos hother).symm
    · rw [if_neg hother] at hring
      exact (congrArg (fun ring => { map with hashRing := ring }) hring).trans (if_neg hother).symm
  | removeShardFromRing other =>
    simp only [ringStep, ShardMap.removeShardFromRing, List.filter_filter]
    by_cases hother : other = shardId
    · refine Eq.trans ?_ (if_pos hother).symm
      simp [hother]
    · refine Eq.trans ?_ (if_neg hother).symm
      simp only [Bool.and_comm]

/-- **A shard that has gone leaves no trace**: after any calls and the removal of a shard, the ring,
and with it the shard of each key, is what the calls about the other shards alone make. -/
theorem removeShardFromRing_run (env : Environment) (calls : List RingCall) (shardId : String) :
    run (ringStep env) {} (calls ++ [.removeShardFromRing shardId]) =
      run (ringStep env) {} (calls.filter fun call => call.shard ≠ shardId) := by
  have hrun : ∀ map : ShardMap, map.Sorted → (run (ringStep env) map calls).removeShardFromRing shardId =
      run (ringStep env) (map.removeShardFromRing shardId) (calls.filter fun call => call.shard ≠ shardId) := by
    induction calls with
    | nil => exact fun _ _ => rfl
    | cons call calls ih =>
      intro map h
      rw [run_cons, ih _ (h.ringStep call), removeShardFromRing_ringStep h, List.filter_cons]
      by_cases hcall : call.shard = shardId
      · simp [hcall]
      · simp [hcall]
  rw [run_append]
  exact hrun {} List.Pairwise.nil

end Sharding
