import PeerX.Common.CacheInvalidation

/-!
# Common: the patterns that go with a key

The dependency graph is searched from a pattern, by comparisons in both directions. A pattern is a
glob, in which a star stands for any string and every other character for itself. The comparison is
by a regular expression, in which a `?` is not escaped and a star stands for no line break. So a
comparison may come out otherwise than that of the globs, or throw.
-/

namespace Caching

open Relational Wildcards Worklist

/-- The string is matched by the glob. -/
def GlobMatches (value pattern : String) : Prop := Replaced '*'.toNat (codeUnits pattern) (codeUnits value)

/-- One of two patterns is matched by the other. -/
def GlobEither (current key : String) : Prop := GlobMatches current key ∨ GlobMatches key current

/-- A pattern depends on a key that is matched in one of the directions. -/
def GlobStep (graph : DependencyGraph) (x y : String) : Prop :=
  ∃ key deps, (key, deps) ∈ graph.entries ∧ GlobEither x key ∧ y ∈ deps.keys

/-- The patterns that the globs lead to. -/
def GlobReaches (graph : DependencyGraph) : String → String → Prop := Relation.ReflTransGen (GlobStep graph)

/-- The search is right: it succeeds, and finds each pattern once that the globs lead to. -/
def IsClosure (graph : DependencyGraph) (start : String) : Prop :=
  ∃ patterns, getInvalidationPatterns graph start = .ok patterns ∧ patterns.Nodup ∧
    ∀ y, y ∈ patterns ↔ GlobReaches graph start y

/-- The comparisons do no harm: with the patterns that the globs lead to, none throws; a key
that is matched, but not by the globs, has only dependencies that the globs lead to anyway; and
those of a key that is matched by the globs only are found all the same. -/
structure Harmless (graph : DependencyGraph) (start : String) : Prop where
  compared : ∀ x, GlobReaches graph start x → ∀ key ∈ graph.keys, ∃ b, matchesEither x key = .ok b
  extra : ∀ x key deps, GlobReaches graph start x → (key, deps) ∈ graph.entries → matchesEither x key = .ok true →
    ¬ GlobEither x key → ∀ y ∈ deps.keys, GlobReaches graph start y
  missing : ∀ x key deps, GlobReaches graph start x → (key, deps) ∈ graph.entries → matchesEither x key = .ok false →
    GlobEither x key → ∀ y ∈ deps.keys, Depends graph start y

variable {graph : DependencyGraph} {start x y : String}

/-- The tokens of a pattern without `?`. -/
theorem regExpTokens_of_plain {cs : List ℕ} (h : '?'.toNat ∉ cs) (last : LastTerm) :
    regExpTokens last cs = .ok (last.tokens ++ cs.map (starToken '*'.toNat isDot)) := by
  induction cs generalizing last with
  | nil =>
    unfold regExpTokens
    rw [List.map_nil, List.append_nil]
  | cons c cs ih =>
    obtain ⟨hc, hcs⟩ := not_or.mp (List.mem_cons.not.mp h)
    conv_lhs => unfold regExpTokens
    rw [if_neg (Ne.symm hc), List.map_cons, starToken]
    split
    · rw [ih hcs]
      rfl
    · rw [ih hcs]
      rfl

/-- The comparison is that of the globs when the pattern has no `?` and the value no line
break. -/
theorem patternMatches_of_plain {value pattern : String} (hpattern : '?'.toNat ∉ codeUnits pattern)
    (hvalue : ∀ c ∈ codeUnits value, isDot c) :
    ∃ b, patternMatches value pattern = .ok b ∧ (b ↔ GlobMatches value pattern) := by
  refine ⟨_, by rw [patternMatches, regExpTokens_of_plain hpattern]; rfl, ?_⟩
  exact accepts_stars hvalue

/-- The dependencies are found when no comparison throws. -/
theorem dependents_eq_ok_iff {current : String} {entries : List (String × StringSet)} :
    (∃ found, dependents current entries = .ok found) ↔
      ∀ key ∈ entries.map Prod.fst, ∃ b, matchesEither current key = .ok b := by
  induction entries with
  | nil => simp [dependents]
  | cons entry entries ih =>
    rw [List.map_cons, List.forall_mem_cons, ← ih, dependents]
    cases hmatch : matchesEither current entry.1 with
    | error e => simp
    | ok b =>
      cases b with
      | true => cases dependents current entries <;> simp [Except.map]
      | false => simp

theorem depends_step (hx : Depends graph start x) {found : List String} (hfound : dependents x graph.entries = .ok found)
    {key : String} {deps : StringSet} (hmem : (key, deps) ∈ graph.entries) (hmatch : matchesEither x key = .ok true)
    (hy : y ∈ deps.keys) : Depends graph start y :=
  hx.tail ⟨found, hfound, (mem_dependents hfound).mpr ⟨key, deps, hmem, hmatch, hy⟩⟩

/-- A search that is right makes comparisons that do no harm. -/
theorem IsClosure.harmless (h : IsClosure graph start) : Harmless graph start := by
  obtain ⟨patterns, hpatterns, -, hmem⟩ := h
  obtain ⟨hwalked, hdepends⟩ := getInvalidationPatterns_eq_ok hpatterns
  have hsame : ∀ y, Depends graph start y ↔ GlobReaches graph start y := fun y => (hdepends y).symm.trans (hmem y)
  refine ⟨fun x hx => ?_, ?_, ?_⟩
  · exact dependents_eq_ok_iff.mp (hwalked x ((hsame x).mpr hx))
  · intro x key deps hx hentry hmatch _ y hy
    have hx' := (hsame x).mpr hx
    obtain ⟨found, hfound⟩ := hwalked x hx'
    exact (hsame y).mp (depends_step hx' hfound hentry hmatch hy)
  · intro x key deps hx hentry _ hglob y hy
    exact (hsame y).mpr (hx.tail ⟨key, deps, hentry, hglob, hy⟩)

namespace Harmless

variable (h : Harmless graph start)

include h

/-- The dependencies of what the globs lead to are found. -/
theorem exists_dependents (hx : GlobReaches graph start x) : ∃ found, dependents x graph.entries = .ok found :=
  dependents_eq_ok_iff.mpr (h.compared x hx)

/-- The search finds only what the globs lead to. -/
theorem globReaches_of_depends (hy : Depends graph start y) : GlobReaches graph start y := by
  induction hy with
  | refl => exact .refl
  | @tail x y _ hstep hx =>
    obtain ⟨found, hfound, hy⟩ := hstep
    obtain ⟨key, deps, hentry, hmatch, hdeps⟩ := (mem_dependents hfound).mp hy
    by_cases hglob : GlobEither x key
    · exact hx.tail ⟨key, deps, hentry, hglob, hdeps⟩
    · exact h.extra x key deps hx hentry hmatch hglob y hdeps

/-- The search finds all that the globs lead to. -/
theorem depends_of_globReaches (hy : GlobReaches graph start y) : Depends graph start y := by
  induction hy with
  | refl => exact .refl
  | @tail x y hx hstep hdepends =>
    obtain ⟨key, deps, hentry, hglob, hdeps⟩ := hstep
    obtain ⟨b, hb⟩ := h.compared x hx key (List.mem_map_of_mem hentry)
    cases b with
    | true =>
      obtain ⟨found, hfound⟩ := h.exists_dependents hx
      exact depends_step hdepends hfound hentry hb hdeps
    | false => exact h.missing x key deps hx hentry hb hglob y hdeps

theorem isClosure : IsClosure graph start := by
  have hwalked : Walked graph start := fun x hx => h.exists_dependents (h.globReaches_of_depends hx)
  obtain ⟨patterns, hpatterns⟩ := getInvalidationPatterns_of_walked hwalked
  obtain ⟨-, hdepends⟩ := getInvalidationPatterns_eq_ok hpatterns
  refine ⟨patterns, hpatterns, Successors.nodup_search (List.nodup_singleton start) hpatterns, fun y => ?_⟩
  exact (hdepends y).trans ⟨h.globReaches_of_depends, h.depends_of_globReaches⟩

end Harmless

/-- **When the search finds what the globs lead to**, and which comparisons are those of the
globs. -/
theorem isClosure_iff (graph : DependencyGraph) (start : String) :
    (IsClosure graph start ↔ Harmless graph start) ∧
      ∀ value pattern : String, '?'.toNat ∉ codeUnits pattern → (∀ c ∈ codeUnits value, isDot c) →
        ∃ b, patternMatches value pattern = .ok b ∧ (b ↔ GlobMatches value pattern) :=
  ⟨⟨IsClosure.harmless, Harmless.isClosure⟩, fun _ _ => patternMatches_of_plain⟩

/-- **A key with a `?` does not match itself**, and its dependency is not found. -/
theorem not_isClosure_of_query :
    ¬ IsClosure (registerDependency initialGraph "trades?page=1" "trades:list") "trades?page=1" := by
  rintro ⟨patterns, hpatterns, -, hmem⟩
  have hself : GlobMatches "trades?page=1" "trades?page=1" := by
    rw [GlobMatches, ← accepts_stars (p := fun _ => true) fun _ _ => rfl]
    decide +kernel
  have hlist : "trades:list" ∈ patterns := by
    refine (hmem "trades:list").mpr (.single ⟨"trades?page=1",
      ((initialGraph.get "trades?page=1").getD JsMap.new).set "trades:list" (), ?_, .inl hself, by decide +kernel⟩)
    exact JsMap.mem_entries.mpr (JsMap.get_set_self _ _ _)
  have hfound : getInvalidationPatterns (registerDependency initialGraph "trades?page=1" "trades:list") "trades?page=1" =
      .ok ["trades?page=1"] := by decide +kernel
  obtain rfl := Except.ok.inj (hfound.symm.trans hpatterns)
  exact absurd hlist (by decide)

end Caching
