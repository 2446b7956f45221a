import Mathlib.Data.Rat.Defs
import Mathlib.Data.List.Infix
import Mathlib.Logic.Function.Basic
import Mathlib.Algebra.Order.Ring.Rat
import Mathlib.Tactic.NormNum

/-!
# Rate limits: buckets in memory

Each pair of a caller key and an endpoint has a bucket in a map, under the text of the endpoint, a
separator, and the key. Clearing a key removes the buckets whose text holds the separator followed
by the key. So a pair shares its bucket with another one when the texts are the same, and loses it
when a key is cleared that the text holds in this way.
-/

namespace RateLimit

structure BucketState where
  tokens : ℚ
  lastRefillMs : ℚ
deriving DecidableEq

/-- The map of the buckets. -/
abbrev Buckets := String → Option BucketState

def includes (text part : String) : Bool := part.toList <:+: text.toList

/-- A caller key and an endpoint. -/
structure Pair where
  key : String
  endpoint : String
deriving DecidableEq

/-- The `bucketKey` of a pair. -/
def Pair.bucketKey (pair : Pair) : String := s!"{pair.endpoint}::{pair.key}"

/-- `isAllowed`, at a time. -/
def isAllowed (pair : Pair) (capacity refillRatePerMs now : ℚ) (buckets : Buckets) : Bool × Buckets :=
  let bucket := (buckets pair.bucketKey).getD { tokens := capacity, lastRefillMs := now }
  let elapsed := now - bucket.lastRefillMs
  let tokens := min capacity (bucket.tokens + elapsed * refillRatePerMs)
  if tokens < 1 then (false, Function.update buckets pair.bucketKey (some ⟨tokens, now⟩))
  else (true, Function.update buckets pair.bucketKey (some ⟨tokens - 1, now⟩))

def clearKey (key : String) (buckets : Buckets) : Buckets := fun bucketKey =>
  if includes bucketKey s!"::{key}" then none else buckets bucketKey

inductive LimiterCall : Type
  | isAllowed (pair : Pair) (capacity refillRatePerMs now : ℚ)
  | clearKey (key : String)
deriving DecidableEq

namespace LimiterCall

/-- The buckets after a call. -/
def apply : LimiterCall → Buckets → Buckets
  | .isAllowed pair capacity refillRatePerMs now, buckets =>
    (RateLimit.isAllowed pair capacity refillRatePerMs now buckets).2
  | .clearKey key, buckets => RateLimit.clearKey key buckets

/-- The call is one for the pair, or for exactly its key. -/
def IsFor (pair : Pair) : LimiterCall → Prop
  | .isAllowed pair' _ _ _ => pair' = pair
  | .clearKey key => key = pair.key

instance (pair : Pair) : DecidablePred (IsFor pair)
  | .isAllowed pair' _ _ _ => inferInstanceAs (Decidable (pair' = pair))
  | .clearKey key => inferInstanceAs (Decidable (key = pair.key))

/-- The call touches a bucket. -/
def Touches (bucketKey : String) : LimiterCall → Prop
  | .isAllowed pair _ _ _ => pair.bucketKey = bucketKey
  | .clearKey key => includes bucketKey s!"::{key}"

/-- The call uses some pairs, and clears some keys. -/
def Within (pairs : Pair → Prop) (keys : String → Prop) : LimiterCall → Prop
  | .isAllowed pair _ _ _ => pairs pair
  | .clearKey key => keys key

end LimiterCall

/-- The answers for a pair, one after the other. -/
def answersOf (pair : Pair) : Buckets → List LimiterCall → List Bool
  | _, [] => []
  | buckets, call :: calls =>
    let rest := answersOf pair (call.apply buckets) calls
    match call with
    | .isAllowed pair' capacity refillRatePerMs now =>
      if pair' = pair then (isAllowed pair' capacity refillRatePerMs now buckets).1 :: rest else rest
    | .clearKey _ => rest

/-- The pair behaves as its own bucket: its answers are those of the calls for it alone. -/
def Independent (pair : Pair) (calls : List LimiterCall) : Prop :=
  answersOf pair (fun _ => none) calls = answersOf pair (fun _ => none) (calls.filter (LimiterCall.IsFor pair))

instance (pair : Pair) (calls : List LimiterCall) : Decidable (Independent pair calls) :=
  inferInstanceAs (Decidable (_ = _))

variable {pair : Pair} {call : LimiterCall} {buckets buckets' : Buckets}

/-- A call that does not touch a bucket leaves it as it is. -/
theorem apply_of_not_touches {bucketKey : String} (h : ¬ call.Touches bucketKey) :
    call.apply buckets bucketKey = buckets bucketKey := by
  cases call with
  | isAllowed pair' capacity refillRatePerMs now =>
    have hne : bucketKey ≠ pair'.bucketKey := fun heq => h heq.symm
    simp only [LimiterCall.apply, isAllowed]
    split <;> exact Function.update_of_ne hne _ _
  | clearKey key => exact if_neg h

/-- A call reads the bucket that it touches, and no other one. -/
theorem apply_congr {bucketKey : String} (htouches : call.Touches bucketKey)
    (h : buckets bucketKey = buckets' bucketKey) : call.apply buckets bucketKey = call.apply buckets' bucketKey := by
  cases call with
  | isAllowed pair' capacity refillRatePerMs now =>
    obtain rfl : pair'.bucketKey = bucketKey := htouches
    simp only [LimiterCall.apply, isAllowed, h]
    split <;> simp only [Function.update_self]
  | clearKey key => exact (if_pos htouches).trans (if_pos htouches).symm

/-- The separator and the key end the text of the bucket. -/
theorem includes_bucketKey (pair : Pair) : includes pair.bucketKey s!"::{pair.key}" := by
  have hsuffix : (s!"::{pair.key}").toList <:+ pair.bucketKey.toList := by
    refine ⟨pair.endpoint.toList, ?_⟩
    simp [Pair.bucketKey, String.toList_append, toString]
  simpa [includes] using hsuffix.isInfix

theorem touches_of_isFor (h : call.IsFor pair) : call.Touches pair.bucketKey := by
  cases call with
  | isAllowed pair' capacity refillRatePerMs now => exact congrArg Pair.bucketKey h
  | clearKey key =>
    obtain rfl : key = pair.key := h
    exact includes_bucketKey pair

/-- Calls that do not touch the bucket of a pair make no difference to it. -/
theorem answersOf_filter {calls : List LimiterCall}
    (hcalls : ∀ call ∈ calls, call.Touches pair.bucketKey → call.IsFor pair)
    (h : buckets pair.bucketKey = buckets' pair.bucketKey) :
    answersOf pair buckets calls = answersOf pair buckets' (calls.filter (LimiterCall.IsFor pair)) := by
  induction calls generalizing buckets buckets' with
  | nil => rfl
  | cons call calls ih =>
    obtain ⟨hcall, hrest⟩ := List.forall_mem_cons.mp hcalls
    by_cases hfor : call.IsFor pair
    · rw [List.filter_cons_of_pos (by simpa using hfor)]
      have hafter := ih hrest (apply_congr (touches_of_isFor hfor) h)
      cases call with
      | isAllowed pair' capacity refillRatePerMs now =>
        obtain rfl : pair' = pair := hfor
        have hanswer : (isAllowed pair' capacity refillRatePerMs now buckets).1 =
            (isAllowed pair' capacity refillRatePerMs now buckets').1 := by
          simp only [isAllowed, h]
          split <;> rfl
        rw [answersOf, answersOf, hafter, hanswer]
      | clearKey key => exact hafter
    · rw [List.filter_cons_of_neg (by simpa using hfor)]
      have hafter := ih hrest ((apply_of_not_touches fun htouches => hfor (hcall htouches)).trans h)
      cases call with
      | isAllowed pair' capacity refillRatePerMs now =>
        have hne : pair' ≠ pair := hfor
        simp only [answersOf, if_neg hne]
        exact hafter
      | clearKey key => exact hafter

/-- The answer for a new bucket, and for one that has just been emptied. -/
theorem isAllowed_new (pair : Pair) (buckets : Buckets) (h : buckets pair.bucketKey = none) :
    isAllowed pair 1 0 0 buckets = (true, Function.update buckets pair.bucketKey (some ⟨0, 0⟩)) := by
  simp [isAllowed, h]

theorem isAllowed_empty (h : buckets pair.bucketKey = some ⟨0, 0⟩) :
    (isAllowed pair 1 0 0 buckets).1 = false := by
  simp [isAllowed, h]

theorem not_independent_of_bucketKey {pair' : Pair} (hne : pair' ≠ pair) (h : pair'.bucketKey = pair.bucketKey) :
    ¬ Independent pair [.isAllowed pair' 1 0 0, .isAllowed pair 1 0 0] := by
  intro hindependent
  have hfirst := isAllowed_new pair' (fun _ => none) rfl
  have hsecond : (isAllowed pair 1 0 0 (Function.update (fun _ => none) pair'.bucketKey (some ⟨0, 0⟩))).1 = false := by
    apply isAllowed_empty
    rw [← h, Function.update_self]
  have halone := isAllowed_new pair (fun _ => none) rfl
  simp [Independent, answersOf, LimiterCall.apply, LimiterCall.IsFor, hne, hfirst, hsecond, halone] at hindependent

theorem not_independent_of_includes {key : String} (hne : key ≠ pair.key) (h : includes pair.bucketKey s!"::{key}") :
    ¬ Independent pair [.isAllowed pair 1 0 0, .clearKey key, .isAllowed pair 1 0 0] := by
  intro hindependent
  have hfirst := isAllowed_new pair (fun _ => none) rfl
  have hcleared : clearKey key (Function.update (fun _ => none) pair.bucketKey (some ⟨0, 0⟩)) pair.bucketKey = none :=
    if_pos h
  have hsecond := isAllowed_new pair _ hcleared
  have halone : (isAllowed pair 1 0 0 (Function.update (fun _ => none) pair.bucketKey (some ⟨0, 0⟩))).1 = false := by
    apply isAllowed_empty
    rw [Function.update_self]
  simp [Independent, answersOf, LimiterCall.apply, LimiterCall.IsFor, hne, hfirst, hsecond, halone] at hindependent

/-- **When all pairs are independent**, over all calls for some pairs and some cleared keys: no two
of the pairs have the same bucket, and no cleared key is held by the bucket of a pair with another
key. -/
theorem independent_iff (pairs : Pair → Prop) (keys : String → Prop) :
    (∀ calls : List LimiterCall, (∀ call ∈ calls, call.Within pairs keys) → ∀ pair, pairs pair →
        Independent pair calls) ↔
      (∀ pair pair', pairs pair → pairs pair' → pair.bucketKey = pair'.bucketKey → pair = pair') ∧
        ∀ pair key, pairs pair → keys key → includes pair.bucketKey s!"::{key}" → key = pair.key := by
  constructor
  · intro h
    refine ⟨fun pair pair' hpair hpair' hsame => ?_, fun pair key hpair hkey hincludes => ?_⟩
    · -- a call for the one pair and then one for the other tell them apart
      by_contra hne
      refine not_independent_of_bucketKey hne hsame (h _ ?_ pair' hpair')
      intro call hcall
      rcases List.mem_cons.mp hcall with rfl | hcall
      · exact hpair
      · obtain rfl := List.mem_singleton.mp hcall
        exact hpair'
    · -- the key clears the bucket of the pair between two calls
      by_contra hne
      refine not_independent_of_includes hne hincludes (h _ ?_ pair hpair)
      intro call hcall
      rcases List.mem_cons.mp hcall with rfl | hcall
      · exact hpair
      rcases List.mem_cons.mp hcall with rfl | hcall
      · exact hkey
      · obtain rfl := List.mem_singleton.mp hcall
        exact hpair
  · rintro ⟨hpairs, hkeys⟩ calls hcalls pair hpair
    refine answersOf_filter (fun call hcall htouches => ?_) rfl
    have hwithin := hcalls call hcall
    cases call with
    | isAllowed pair' capacity refillRatePerMs now => exact hpairs pair' pair hwithin hpair htouches
    | clearKey key => exact hkeys pair key hpair hwithin htouches

/-- **Clearing one key resets the bucket of another caller**, whose key begins with it. -/
theorem bucket_of_other_cleared :
    ¬ Independent ⟨"user12", "kyc-submit"⟩
      [.isAllowed ⟨"user12", "kyc-submit"⟩ 1 0 0, .clearKey "user1", .isAllowed ⟨"user12", "kyc-submit"⟩ 1 0 0] := by
  decide +kernel

end RateLimit
