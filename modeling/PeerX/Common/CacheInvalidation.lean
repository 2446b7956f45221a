import PeerX.Foundations.JsMap
import PeerX.Foundations.Wildcards
import PeerX.Foundations.Worklist

/-!
# Common: invalidation of cache keys

The entries of the cache are in Redis. A dependency graph names the patterns that go with a key, and
the patterns that go with these. `invalidateKeys` deletes the keys of this name, a pattern included.
So does `invalidate` without a client of Redis, and the cache manager has no `store` to get one
from; with a client it deletes what SCAN finds for a pattern, with a wildcard behind it unless it
ends in one.

## Main results

* `getInvalidationPatterns_eq_ok`: the patterns that the graph returns
* `get_invalidate`: the entries after `invalidate`
* `has_invalidateKeys`: the keys after `invalidateKeys`
* `swept_and_cleared_iff`: when the operations delete what they are for
-/

namespace Caching

open Relational Wildcards Worklist

/-! ## The dependency graph -/

/-- The exception of `new RegExp`: a quantifier follows nothing that it could repeat. -/
inductive SyntaxError where
  | nothingToRepeat
deriving DecidableEq

/-- The code units of a string. -/
def codeUnits (s : String) : List ℕ :=
  s.toList.flatMap fun c =>
    if c.toNat < 0x10000 then [c.toNat]
    else [0xD800 + (c.toNat - 0x10000) / 0x400, 0xDC00 + (c.toNat - 0x10000) % 0x400]

/-- What `.` stands for in a regular expression. -/
def isDot (c : ℕ) : Bool := c ∉ [0x0A, 0x0D, 0x2028, 0x2029]

/-- The last term of a regular expression, and what a `?` does to it. -/
inductive LastTerm where
  /-- There is none, or it is lazy. -/
  | none
  | atom (c : ℕ)
  | quantified (t : Token ℕ)

/-- The tokens of the last term. -/
def LastTerm.tokens : LastTerm → List (Token ℕ)
  | .none => []
  | .atom c => [literal c]
  | .quantified t => [t]

/-- The tokens of the regular expression for a pattern. The other special characters are escaped,
`?` is not. -/
def regExpTokens : LastTerm → List ℕ → Except SyntaxError (List (Token ℕ))
  | last, [] => .ok last.tokens
  | last, c :: cs =>
    if c = '?'.toNat then
      match last with
      | .none => .error .nothingToRepeat
      | .atom a => regExpTokens (.quantified (.optional fun x => decide (x = a))) cs
      | .quantified t => (regExpTokens .none cs).map (t :: ·)
    else if c = '*'.toNat then (regExpTokens (.quantified (.many isDot)) cs).map (last.tokens ++ ·)
    else (regExpTokens (.atom c) cs).map (last.tokens ++ ·)

def patternMatches (value pattern : String) : Except SyntaxError Bool :=
  (regExpTokens .none (codeUnits pattern)).map fun tokens => accepts tokens (codeUnits value)

/-- A set of strings, in insertion order. -/
abbrev StringSet : Type := JsMap String Unit

/-- `add`, for each of the strings. -/
def addAll (set : StringSet) (values : List String) : StringSet := values.foldl (fun set value => set.set value ()) set

/-- `dependencyGraph`: the patterns, and the patterns that depend on each. -/
abbrev DependencyGraph : Type := JsMap String StringSet

def registerDependency (graph : DependencyGraph) (source target : String) : DependencyGraph :=
  graph.set source (((graph.get source).getD JsMap.new).set target ())

/-- The graph of a new service. -/
def initialGraph : DependencyGraph :=
  [("user:balance:*", "user:portfolio:*"), ("user:balance:*", "user:balances:list:*"),
    ("user:balances:list:*", "user:portfolio:*"), ("market:data:*", "user:portfolio:*"),
    ("market:data:*", "trading:orderbook:*"), ("trading:order:*", "user:portfolio:*"),
    ("trading:order:*", "user:balance:*")].foldl (fun graph edge => registerDependency graph edge.1 edge.2) JsMap.new

/-- The two comparisons of a pattern with one of the graph. The second one is made when the first
one fails. -/
def matchesEither (current key : String) : Except SyntaxError Bool :=
  match patternMatches current key with
  | .ok true => .ok true
  | .ok false => patternMatches key current
  | .error e => .error e

/-- The patterns that depend on the current one, by the entries of the graph. -/
def dependents (current : String) : List (String × StringSet) → Except SyntaxError (List String)
  | [] => .ok []
  | (key, deps) :: entries =>
    match matchesEither current key with
    | .ok true => (dependents current entries).map (deps.keys ++ ·)
    | .ok false => dependents current entries
    | .error e => .error e

/-- The dependencies that are found are those of the keys that are matched. -/
theorem mem_dependents {current : String} {entries : List (String × StringSet)} {found : List String}
    {y : String} (h : dependents current entries = .ok found) :
    y ∈ found ↔ ∃ key deps, (key, deps) ∈ entries ∧ matchesEither current key = .ok true ∧ y ∈ deps.keys := by
  induction entries generalizing found with
  | nil =>
    cases h
    simp
  | cons entry entries ih =>
    obtain ⟨key, deps⟩ := entry
    rw [dependents] at h
    have hcons : (∃ key' deps', (key', deps') ∈ (key, deps) :: entries ∧ matchesEither current key' = .ok true ∧
        y ∈ deps'.keys) ↔ (matchesEither current key = .ok true ∧ y ∈ deps.keys) ∨
          ∃ key' deps', (key', deps') ∈ entries ∧ matchesEither current key' = .ok true ∧ y ∈ deps'.keys := by
      constructor
      · rintro ⟨key', deps', hmem, hrest⟩
        rcases List.mem_cons.mp hmem with heq | hmem
        · obtain ⟨rfl, rfl⟩ := Prod.mk.inj heq
          exact .inl hrest
        · exact .inr ⟨key', deps', hmem, hrest⟩
      · rintro (hrest | ⟨key', deps', hmem, hrest⟩)
        · exact ⟨key, deps, List.mem_cons_self, hrest⟩
        · exact ⟨key', deps', List.mem_cons_of_mem _ hmem, hrest⟩
    rw [hcons]
    -- a key that is not matched adds nothing, and one that cannot be compared ends the search
    split at h
    next hmatch =>
      cases hothers : dependents current entries with
      | error e =>
        rw [hothers] at h
        cases h
      | ok others =>
        rw [hothers] at h
        obtain rfl := Except.ok.inj h
        rw [List.mem_append, ih hothers]
        simp [hmatch]
    next hmatch =>
      rw [ih h]
      simp [hmatch]
    next hmatch => cases h

theorem mem_of_dependents {current : String} {entries : List (String × StringSet)} {found : List String}
    (h : dependents current entries = .ok found) : ∀ y ∈ found, y ∈ entries.flatMap fun entry => entry.2.keys := by
  intro y hy
  obtain ⟨key, deps, hmem, -, hdeps⟩ := (mem_dependents h).mp hy
  exact List.mem_flatMap.mpr ⟨(key, deps), hmem, hdeps⟩

/-- The graph, as the successors of a pattern. -/
def successors (graph : DependencyGraph) : Successors String SyntaxError where
  next := fun current => dependents current graph.entries
  nodes := graph.entries.flatMap fun entry => entry.2.keys
  next_mem := fun _ _ h => mem_of_dependents h

def getInvalidationPatterns (graph : DependencyGraph) (pattern : String) : Except SyntaxError (List String) :=
  (successors graph).search [pattern] [pattern]

/-- The graph leads from a key to a pattern. -/
def Depends (graph : DependencyGraph) : String → String → Prop := (successors graph).Reaches

/-- All that the graph leads to can be compared with the patterns of the graph. -/
def Walked (graph : DependencyGraph) (key : String) : Prop :=
  ∀ pattern, Depends graph key pattern → ∃ found, dependents pattern graph.entries = .ok found

/-! ## Patterns in Redis -/

/-- The members of a character class, and the pattern behind it. -/
def classMembers : List Char → List (Char × Char) × List Char
  | '\\' :: c :: cs => ((c, c) :: (classMembers cs).1, (classMembers cs).2)
  | ']' :: cs => ([], cs)
  | a :: '-' :: b :: cs => ((a, b) :: (classMembers cs).1, (classMembers cs).2)
  | c :: cs => ((c, c) :: (classMembers cs).1, (classMembers cs).2)
  | [] => ([], [])

/-- A character is one of the members. The ends of a range may stand in either order. -/
def isMember (members : List (Char × Char)) (c : Char) : Bool :=
  members.any fun range => decide ((range.1 ≤ c ∧ c ≤ range.2) ∨ (range.2 ≤ c ∧ c ≤ range.1))

/-- The tokens of a pattern of at most `n` characters. -/
def globTokens : ℕ → List Char → List (Token Char)
  | 0, _ => []
  | _ + 1, [] => []
  | n + 1, c :: cs =>
    if c = '*' then any :: globTokens n cs
    else if c = '?' then .one (fun _ => true) :: globTokens n cs
    else if c = '[' then
      match cs with
      | '^' :: cs => .one (fun x => !isMember (classMembers cs).1 x) :: globTokens n (classMembers cs).2
      | cs => .one (isMember (classMembers cs).1) :: globTokens n (classMembers cs).2
    else if c = '\\' then
      match cs with
      | d :: cs => literal d :: globTokens n cs
      | [] => [literal c]
    else literal c :: globTokens n cs

/-- The key matches the pattern. -/
def matchesGlob (pattern key : String) : Bool := accepts (globTokens pattern.length pattern.toList) key.toList

/-! ## The cache -/

variable {V : Type}

/-- The entries in Redis, and the number of invalidations by type of entity. -/
structure CacheService (V : Type) where
  entries : JsMap String V
  invalidations : JsMap String ℕ

def CacheService.trackInvalidation (s : CacheService V) (entityType : String) (count : ℕ) : CacheService V :=
  { s with invalidations := s.invalidations.set entityType ((s.invalidations.get entityType).getD 0 + count) }

/-- The entries after the answers of SCAN: the keys of an answer are deleted before the next
call. -/
def deleteScanned (entries : JsMap String V) (answers : List (List String)) : JsMap String V :=
  answers.foldl JsMap.deleteAll entries

/-- A client of Redis: the answers of the calls of SCAN for a pattern, up to the one with the
cursor 0. A key is returned if it matches, and if it is there throughout. -/
structure Scan (entries : JsMap String V) where
  answers : String → List (List String)
  returned_matches : ∀ glob, ∀ keys ∈ answers glob, ∀ key ∈ keys, matchesGlob glob key
  returned_of_throughout : ∀ glob key, matchesGlob glob key →
    (∀ n, (deleteScanned entries ((answers glob).take n)).has key) → ∃ keys ∈ answers glob, key ∈ keys

/-- A client that returns all keys at once. -/
def Scan.atOnce (entries : JsMap String V) : Scan entries where
  answers := fun glob => [entries.keys.filter fun key => matchesGlob glob key]
  returned_matches := by
    intro glob keys hkeys key hkey
    obtain rfl := List.mem_singleton.mp hkeys
    exact (List.mem_filter.mp hkey).2
  returned_of_throughout := fun glob key hmatch hthere =>
    ⟨_, List.mem_singleton_self _, List.mem_filter.mpr ⟨JsMap.mem_keys.mpr (hthere 0), hmatch⟩⟩

def redisGlob (pattern : String) : String := if pattern.toList.getLast? = some '*' then pattern else pattern ++ "*"

def redisPatternDelete (entries : JsMap String V) (client : Scan entries) (pattern : String) : JsMap String V :=
  deleteScanned entries (client.answers (redisGlob pattern))

/-- **`invalidate`**, with the client that `getRedisClient` returns, if it returns one. -/
def CacheService.invalidate (s : CacheService V) (client : Option (Scan s.entries)) (pattern entityType : String) :
    CacheService V :=
  let entries :=
    match client with
    | some client => redisPatternDelete s.entries client pattern
    | none => s.entries.delete pattern
  { s with entries }.trackInvalidation entityType 1

/-- The patterns for a key are added to those that there are. -/
def addCascades (graph : DependencyGraph) (expanded : StringSet) (key : String) : Except SyntaxError StringSet :=
  (getInvalidationPatterns graph key).map (addAll expanded)

/-- `expandWithDependencies`: the keys, and the patterns for each of them. -/
def expandWithDependencies (graph : DependencyGraph) (keys : List String) : Except SyntaxError (List String) :=
  (keys.foldlM (addCascades graph) (addAll JsMap.new keys)).map JsMap.keys

/-- The keys that `invalidateKeys` deletes. -/
def expand (dependencyGraph : Option DependencyGraph) (keys : List String) : Except SyntaxError (List String) :=
  match dependencyGraph with
  | some graph => expandWithDependencies graph keys
  | none => .ok keys

def CacheService.invalidateKeys (s : CacheService V) (dependencyGraph : Option DependencyGraph) (keys : List String)
    (entityType : String) : Except SyntaxError Unit × CacheService V :=
  match expand dependencyGraph keys with
  | .ok expanded =>
    (.ok (), { s with entries := s.entries.deleteAll expanded }.trackInvalidation entityType expanded.length)
  | .error e => (.error e, s)

/-! ## The patterns that the graph returns -/

/-- The patterns that the graph returns are those that it leads to, if all of them can be
compared. -/
theorem getInvalidationPatterns_eq_ok {graph : DependencyGraph} {key : String} {patterns : List String}
    (h : getInvalidationPatterns graph key = .ok patterns) :
    Walked graph key ∧ ∀ pattern, pattern ∈ patterns ↔ Depends graph key pattern :=
  ⟨Successors.search_eq_ok_iff.mp ⟨patterns, h⟩, fun _ => Successors.mem_of_search_eq_ok h⟩

theorem getInvalidationPatterns_of_walked {graph : DependencyGraph} {key : String} (h : Walked graph key) :
    ∃ patterns, getInvalidationPatterns graph key = .ok patterns :=
  Successors.search_eq_ok_iff.mpr h

theorem mem_keys_addAll {set : StringSet} {values : List String} {value : String} :
    value ∈ (addAll set values).keys ↔ value ∈ set.keys ∨ value ∈ values := by
  induction values generalizing set with
  | nil => simp [addAll]
  | cons v values ih =>
    have hstep : value ∈ (addAll set (v :: values)).keys ↔ value ∈ (set.set v ()).keys ∨ value ∈ values := ih
    rw [hstep, JsMap.keys_set, List.mem_cons, ← or_assoc]
    apply or_congr_left
    split
    next hv =>
      constructor
      · exact .inl
      · rintro (h | rfl)
        · exact h
        · exact hv
    next => rw [List.mem_append, List.mem_singleton]

/-- The keys are listed, or the graph leads to them from a listed one. -/
def Named (dependencyGraph : Option DependencyGraph) (keys : List String) (key : String) : Prop :=
  key ∈ keys ∨ ∃ graph ∈ dependencyGraph, ∃ k ∈ keys, Depends graph k key

/-- The walk of the graph from the listed keys succeeds. -/
def AllWalked (dependencyGraph : Option DependencyGraph) (keys : List String) : Prop :=
  ∀ graph ∈ dependencyGraph, ∀ k ∈ keys, Walked graph k

theorem foldlM_addCascades {graph : DependencyGraph} {keys : List String} {set expanded : StringSet}
    (h : keys.foldlM (addCascades graph) set = .ok expanded) : (∀ k ∈ keys, Walked graph k) ∧
      ∀ key, key ∈ expanded.keys ↔ key ∈ set.keys ∨ ∃ k ∈ keys, Depends graph k key := by
  induction keys generalizing set with
  | nil =>
    obtain rfl := Except.ok.inj h
    simp
  | cons k keys ih =>
    rw [List.foldlM_cons, addCascades] at h
    cases hpatterns : getInvalidationPatterns graph k with
    | error e =>
      rw [hpatterns] at h
      cases h
    | ok patterns =>
      rw [hpatterns] at h
      obtain ⟨hwalked, hmem⟩ := getInvalidationPatterns_eq_ok hpatterns
      obtain ⟨hrest, hexpanded⟩ := ih h
      refine ⟨List.forall_mem_cons.mpr ⟨hwalked, hrest⟩, fun key => ?_⟩
      rw [hexpanded, mem_keys_addAll, hmem, or_assoc, List.exists_mem_cons_iff]

theorem exists_foldlM_addCascades {graph : DependencyGraph} {keys : List String} (h : ∀ k ∈ keys, Walked graph k)
    (set : StringSet) : ∃ expanded, keys.foldlM (addCascades graph) set = .ok expanded := by
  induction keys generalizing set with
  | nil => exact ⟨set, rfl⟩
  | cons k keys ih =>
    obtain ⟨hk, hkeys⟩ := List.forall_mem_cons.mp h
    obtain ⟨patterns, hpatterns⟩ := getInvalidationPatterns_of_walked hk
    obtain ⟨expanded, hrest⟩ := ih hkeys (addAll set patterns)
    refine ⟨expanded, ?_⟩
    rw [List.foldlM_cons, addCascades, hpatterns]
    exact hrest

variable {dependencyGraph : Option DependencyGraph} {keys expanded : List String} {key : String}

/-- The keys that are deleted. -/
theorem expand_eq_ok (h : expand dependencyGraph keys = .ok expanded) :
    AllWalked dependencyGraph keys ∧ ∀ key, key ∈ expanded ↔ Named dependencyGraph keys key := by
  cases dependencyGraph with
  | none =>
    obtain rfl := Except.ok.inj h
    simp [AllWalked, Named]
  | some graph =>
    rw [expand, expandWithDependencies] at h
    cases hfold : keys.foldlM (addCascades graph) (addAll JsMap.new keys) with
    | error e =>
      rw [hfold] at h
      cases h
    | ok set =>
      rw [hfold] at h
      obtain rfl := Except.ok.inj h
      obtain ⟨hwalked, hmem⟩ := foldlM_addCascades hfold
      refine ⟨fun g hg => Option.mem_some.mp hg ▸ hwalked, fun key => ?_⟩
      have hnew : key ∉ (JsMap.new : StringSet).keys := List.not_mem_nil
      rw [hmem, mem_keys_addAll]
      simp [Named, hnew]

theorem exists_expand (h : AllWalked dependencyGraph keys) : ∃ expanded, expand dependencyGraph keys = .ok expanded := by
  cases dependencyGraph with
  | none => exact ⟨keys, rfl⟩
  | some graph =>
    obtain ⟨set, hset⟩ := exists_foldlM_addCascades (h graph rfl) (addAll JsMap.new keys)
    exact ⟨set.keys, by rw [expand, expandWithDependencies, hset]; rfl⟩

/-! ## The entries after the operations -/

section Operations

variable (s : CacheService V) (entityType : String)

/-- **The keys after `invalidateKeys`.** If the walk of the graph fails, nothing is deleted. -/
theorem has_invalidateKeys : (s.invalidateKeys dependencyGraph keys entityType).2.entries.has key ↔
    s.entries.has key ∧ ¬ (AllWalked dependencyGraph keys ∧ Named dependencyGraph keys key) := by
  rw [CacheService.invalidateKeys]
  cases hexpand : expand dependencyGraph keys with
  | ok expanded =>
    obtain ⟨hwalked, hmem⟩ := expand_eq_ok hexpand
    have hget := JsMap.get_deleteAll s.entries expanded key
    simp only [CacheService.trackInvalidation, JsMap.has, hget, ← hmem, hwalked, true_and]
    by_cases h : key ∈ expanded <;> simp [h]
  | error e =>
    have hnot : ¬ AllWalked dependencyGraph keys := by
      intro hwalked
      obtain ⟨expanded, hok⟩ := exists_expand hwalked
      rw [hok] at hexpand
      cases hexpand
    simp [hnot]

theorem get_deleteScanned (entries : JsMap String V) (answers : List (List String)) (key : String) :
    (deleteScanned entries answers).get key = if ∃ keys ∈ answers, key ∈ keys then none else entries.get key := by
  induction answers generalizing entries with
  | nil => simp [deleteScanned]
  | cons keys answers ih =>
    refine (ih (entries.deleteAll keys)).trans ?_
    rw [JsMap.get_deleteAll]
    by_cases hkeys : key ∈ keys <;> simp [hkeys]

/-- The entries after the deletion by pattern. A key that matches and is never returned would be
there throughout. -/
theorem get_redisPatternDelete (entries : JsMap String V) (client : Scan entries) (pattern key : String) :
    (redisPatternDelete entries client pattern).get key =
      if matchesGlob (redisGlob pattern) key then none else entries.get key := by
  rw [redisPatternDelete, get_deleteScanned]
  by_cases hreturned : ∃ keys ∈ client.answers (redisGlob pattern), key ∈ keys
  · obtain ⟨keys, hkeys, hkey⟩ := hreturned
    rw [if_pos ⟨keys, hkeys, hkey⟩, if_pos (client.returned_matches _ keys hkeys key hkey)]
  · rw [if_neg hreturned]
    split
    next hmatch =>
      by_contra hget
      apply hreturned
      refine client.returned_of_throughout _ key hmatch fun n => ?_
      have hnot : ¬ ∃ keys ∈ (client.answers (redisGlob pattern)).take n, key ∈ keys := by
        rintro ⟨keys, hkeys, hkey⟩
        exact hreturned ⟨keys, List.mem_of_mem_take hkeys, hkey⟩
      rw [JsMap.has, get_deleteScanned, if_neg hnot]
      exact Option.isSome_iff_ne_none.mpr hget
    next => rfl

/-- The keys that `invalidate` deletes. -/
def deletes {entries : JsMap String V} (client : Option (Scan entries)) (pattern key : String) : Bool :=
  match client with
  | some _ => matchesGlob (redisGlob pattern) key
  | none => key = pattern

/-- **The entries after `invalidate`.** -/
theorem get_invalidate (client : Option (Scan s.entries)) (pattern key : String) :
    (s.invalidate client pattern entityType).entries.get key =
      if deletes client pattern key then none else s.entries.get key := by
  cases client with
  | some client => exact get_redisPatternDelete s.entries client pattern key
  | none =>
    refine (JsMap.get_delete s.entries pattern key).trans ?_
    simp [deletes]

end Operations

/-! ## What the operations are for -/

/-- No key is left that is listed or matches a pattern which the graph returns for a listed
key. -/
def Swept (dependencyGraph : Option DependencyGraph) (keys : List String) (entries : JsMap String V) : Prop :=
  ∀ key, entries.has key → key ∉ keys ∧ ∀ graph ∈ dependencyGraph, ∀ k ∈ keys, ∀ patterns,
    getInvalidationPatterns graph k = .ok patterns → ∀ pattern ∈ patterns, ¬ matchesGlob pattern key

/-- The entries that match the pattern are deleted, and no other ones. -/
def Cleared (pattern : String) (before after : JsMap String V) : Prop :=
  ∀ key, after.get key = if matchesGlob pattern key then none else before.get key

/-- The key is listed, or it matches a pattern that the graph leads to from a listed key. -/
def Concerned (dependencyGraph : Option DependencyGraph) (keys : List String) (key : String) : Prop :=
  key ∈ keys ∨ ∃ graph ∈ dependencyGraph, ∃ k ∈ keys, Walked graph k ∧
    ∃ pattern, Depends graph k pattern ∧ matchesGlob pattern key

/-- The keys that should go are named literally. -/
def NamedOnly (dependencyGraph : Option DependencyGraph) (keys : List String) (entries : JsMap String V) : Prop :=
  ∀ key, entries.has key → Concerned dependencyGraph keys key →
    AllWalked dependencyGraph keys ∧ Named dependencyGraph keys key

/-- What is left by `invalidateKeys` should not have gone. -/
theorem swept_iff {entries : JsMap String V} :
    Swept dependencyGraph keys entries ↔ ∀ key, entries.has key → ¬ Concerned dependencyGraph keys key := by
  refine forall₂_congr fun key _ => ?_
  constructor
  · rintro ⟨hlisted, hpatterns⟩ (hkey | ⟨graph, hgraph, k, hk, hwalked, pattern, hdepends, hmatch⟩)
    · exact hlisted hkey
    · obtain ⟨patterns, hok⟩ := getInvalidationPatterns_of_walked hwalked
      obtain ⟨-, hmem⟩ := getInvalidationPatterns_eq_ok hok
      exact hpatterns graph hgraph k hk patterns hok pattern ((hmem pattern).mpr hdepends) hmatch
  · intro hnot
    refine ⟨fun hkey => hnot (.inl hkey), fun graph hgraph k hk patterns hok pattern hpattern hmatch => ?_⟩
    obtain ⟨hwalked, hmem⟩ := getInvalidationPatterns_eq_ok hok
    exact hnot (.inr ⟨graph, hgraph, k, hk, hwalked, pattern, (hmem pattern).mp hpattern, hmatch⟩)

/-- `invalidateKeys` sweeps the keys that are named literally. -/
theorem swept_invalidateKeys_iff (s : CacheService V) (entityType : String) :
    Swept dependencyGraph keys (s.invalidateKeys dependencyGraph keys entityType).2.entries ↔
      NamedOnly dependencyGraph keys s.entries := by
  rw [swept_iff]
  refine forall_congr' fun key => ?_
  rw [has_invalidateKeys]
  constructor
  · intro hleft hkey hconcerned
    by_contra hnot
    exact hleft ⟨hkey, hnot⟩ hconcerned
  · rintro hnamed ⟨hkey, hnot⟩ hconcerned
    exact hnot (hnamed hkey hconcerned)

/-- `invalidate` clears the keys that match a pattern if these are the ones that it deletes. -/
theorem cleared_invalidate_iff (s : CacheService V) (client : Option (Scan s.entries)) (pattern entityType : String) :
    Cleared pattern s.entries (s.invalidate client pattern entityType).entries ↔
      ∀ key, s.entries.has key → (deletes client pattern key ↔ matchesGlob pattern key) := by
  refine forall_congr' fun key => ?_
  rw [get_invalidate, JsMap.has]
  cases hget : s.entries.get key with
  | none => simp
  | some v => by_cases hdeletes : deletes client pattern key <;> by_cases hmatch : matchesGlob pattern key <;>
      simp [hdeletes, hmatch]

/-- **When the operations delete what they are for.** -/
theorem swept_and_cleared_iff :
    (∀ (s : CacheService V) (dependencyGraph : Option DependencyGraph) (keys : List String) (entityType : String),
      Swept dependencyGraph keys (s.invalidateKeys dependencyGraph keys entityType).2.entries ↔
        NamedOnly dependencyGraph keys s.entries) ∧
    (∀ (s : CacheService V) (pattern entityType : String),
      Cleared pattern s.entries (s.invalidate none pattern entityType).entries ↔
        ∀ key, s.entries.has key → (key = pattern ↔ matchesGlob pattern key)) ∧
    ∀ (s : CacheService V) (client : Scan s.entries) (pattern entityType : String),
      Cleared pattern s.entries (s.invalidate (some client) pattern entityType).entries ↔
        pattern.toList.getLast? = some '*' ∨
          ∀ key, s.entries.has key → (matchesGlob (pattern ++ "*") key ↔ matchesGlob pattern key) := by
  refine ⟨fun s dependencyGraph keys entityType => swept_invalidateKeys_iff s entityType,
    fun s pattern entityType => by simpa [deletes] using cleared_invalidate_iff s none pattern entityType,
    fun s client pattern entityType => ?_⟩
  rw [cleared_invalidate_iff]
  simp only [deletes, redisGlob]
  by_cases hstar : pattern.toList.getLast? = some '*'
  · simp [hstar]
  · rw [if_neg hstar]
    exact (or_iff_right hstar).symm

/-- The portfolios of two users. -/
def portfolios : JsMap String ℕ := (JsMap.new.set "user:portfolio:7" 1).set "portfolio:12" 2

/-- The portfolio that depends on a balance stays. So does that of user 12 when all portfolios are
invalidated; with a client, it goes with that of user 1. -/
theorem portfolios_not_swept_not_cleared :
    ¬ Swept (some initialGraph) ["user:balance:7"]
      (CacheService.invalidateKeys ⟨portfolios, JsMap.new⟩ (some initialGraph) ["user:balance:7"] "Balance").2.entries ∧
    ¬ Cleared "portfolio:*" portfolios
      (CacheService.invalidate ⟨portfolios, JsMap.new⟩ none "portfolio:*" "Portfolio").entries ∧
    ¬ Cleared "portfolio:1" portfolios
      (CacheService.invalidate ⟨portfolios, JsMap.new⟩ (some (.atOnce portfolios)) "portfolio:1" "Portfolio").entries := by
  refine ⟨?_, ?_, ?_⟩
  · intro hswept
    obtain ⟨-, hpatterns⟩ := hswept "user:portfolio:7" (by decide +kernel)
    exact hpatterns initialGraph rfl "user:balance:7" (by decide)
      ["user:balance:7", "user:portfolio:*", "user:balances:list:*"] (by decide +kernel) "user:portfolio:*" (by decide)
      (by decide +kernel)
  all_goals
    intro hcleared
    have hget := hcleared "portfolio:12"
    revert hget
    decide +kernel

end Caching
