import PeerX.Database.MultiLevelCache
import PeerX.Foundations.Program
import PeerX.Foundations.Runs
import Mathlib.Data.Fintype.Basic
import Mathlib.Tactic.FinCases

/-!
# Multi-level cache: calls at the same time

Any number of calls are made at the same time, and their commands reach the levels in any order. A
read that has found a value writes it back later, when a `set` or a `del` may already have been
there. If no value is written back after a call that replaces it, then no value comes back that was
replaced.

## Main results

* `informed_get`: what a read writes back and returns is what it has found
* `Sound.serve`: what each step keeps
* `current_of_orderly`: the interleavings in which no value comes back
-/

namespace LevelCache

open Concurrency

variable {ι V : Type}

/-! ## The calls -/

/-- What is left of a call: the rest of a read, or the rest on each level of a `set` or a `del`. -/
inductive Rest (V : Type) where
  | get (rest : CacheProg (Option V))
  | each (rest : CacheLevel → CacheProg Unit)

/-- The call has resolved. `Promise.allSettled` resolves after the last one. -/
def Rest.resolved : Rest V → Bool
  | .get rest => rest.returned
  | .each rest => (rest .l1).returned && (rest .l2).returned && (rest .l3).returned

/-- A call that has started, and the calls that had resolved before. -/
structure Running (ι V : Type) where
  earlier : ι → Bool
  rest : Rest V

/-- The levels, and the calls that have started. -/
structure Traffic (ι V : Type) where
  levels : Levels
  running : ι → Option (Running ι V)

/-- The empty cache, before the calls. -/
def Traffic.start : Traffic ι V := ⟨fun _ _ => none, fun _ => none⟩

namespace Traffic

/-- The call has resolved. -/
def resolved (s : Traffic ι V) (i : ι) : Bool := (s.running i).any fun r => r.rest.resolved

/-- The call `i` had resolved when `j` started. -/
def earlier (s : Traffic ι V) (i j : ι) : Bool := (s.running j).any fun r => r.earlier i

/-- The `set` or `del` has executed its command on the level. -/
def reached (s : Traffic ι V) (level : CacheLevel) (i : ι) : Bool :=
  match s.running i with
  | some ⟨_, .each rest⟩ => (rest level).returned
  | _ => false

/-- The value that the read has returned. -/
def returned (s : Traffic ι V) (g : ι) : Option V :=
  match s.running g with
  | some ⟨_, .get rest⟩ => rest.result.join
  | _ => none

end Traffic

/-- A step: a call starts, or its next command is executed at some time, unless it fails. The level
is that of the command, for a `set` or a `del`. -/
inductive Event (ι : Type) where
  | start (i : ι)
  | command (i : ι) (level : CacheLevel) (now : ℚ) (error : Option RedisError)

/-- The next command of a program. -/
def issue {α : Type} (now : ℚ) (error : Option RedisError) : CacheProg α → Levels → CacheProg α × Levels
  | .call c k, s =>
    match error with
    | none => (k (c.exec now s).1, (c.exec now s).2)
    | some error => (k (c.failed error), s)
  | p, s => (p, s)

/-- The text that a command stores. -/
def RedisCommand.stored : RedisCommand → Option (CacheLevel × String × String)
  | .setex level key _ text => some (level, key, text)
  | .set level key text => some (level, key, text)
  | _ => none

/-- The key that a command overwrites. -/
def RedisCommand.target : RedisCommand → Option (CacheLevel × String)
  | .get _ _ => none
  | .setex level key _ _ => some (level, key)
  | .set level key _ => some (level, key)
  | .del level key => some (level, key)

/-- The call is a read. -/
def CacheCall.isGet : CacheCall V → Bool
  | .get _ => true
  | _ => false

variable (J : JsonCodec V)

/-- A call at its start. -/
def CacheCall.begin : CacheCall V → Rest V
  | .get key => .get (LevelCache.get J key)
  | .set key value ttl => .each (LevelCache.set J key value ttl)
  | .del key => .each (LevelCache.del key)

variable (calls : ι → CacheCall V)

/-- **One step.** -/
def serve [DecidableEq ι] (s : Traffic ι V) : Event ι → Traffic ι V
  | .start i =>
    match s.running i with
    | some _ => s
    | none => { s with running := Function.update s.running i (some ⟨s.resolved, (calls i).begin J⟩) }
  | .command i level now error =>
    match s.running i with
    | some ⟨earlier, .get rest⟩ =>
      let r := issue now error rest s.levels
      ⟨r.2, Function.update s.running i (some ⟨earlier, .get r.1⟩)⟩
    | some ⟨earlier, .each rest⟩ =>
      let r := issue now error (rest level) s.levels
      ⟨r.2, Function.update s.running i (some ⟨earlier, .each (Function.update rest level r.1)⟩)⟩
    | none => s

/-! ## Values that were replaced -/

/-- The value is that of this `set`, which has started. -/
def Source (s : Traffic ι V) (key : String) (value : V) (i : ι) : Prop :=
  ∃ given ttl, calls i = .set key given ttl ∧ J.readBack given = some value ∧ (s.running i).isSome

/-- A value that may be on a level: that of a `set` that had not resolved when any of the calls
that have reached the level started. -/
def Held (s : Traffic ι V) (level : CacheLevel) (key : String) (value : V) : Prop :=
  ∃ i, Source J calls s key value i ∧ ∀ j, (calls j).key = key → s.reached level j → ¬ s.earlier i j

/-- A value that a read may return: that of a `set` that had not resolved when any `set` or
`del` of the key started which itself had resolved when the read started. -/
def Backed (s : Traffic ι V) (g : ι) (key : String) (value : V) : Prop :=
  ∃ i, Source J calls s key value i ∧
    ∀ j, (calls j).key = key → (calls j).isGet = false → s.earlier j g → ¬ s.earlier i j

/-- No value comes back: what the reads have returned was not replaced before they started. -/
def Current (s : Traffic ι V) : Prop :=
  ∀ g value, s.returned g = some value → Backed J calls s g (calls g).key value

/-- No value is written back after a call that replaces it, and the commands of `set` and `del`
are executed. -/
def Orderly (s : Traffic ι V) : Event ι → Prop
  | .start _ => True
  | .command i level _ error =>
    match s.running i with
    | some ⟨_, .get rest⟩ => error = none → ∀ level key text, rest.next.bind RedisCommand.stored = some (level, key, text) →
        ∀ value, J.read text = some value → Held J calls s level key value
    | some ⟨_, .each rest⟩ => (rest level).returned = false → error = none
    | none => True

/-! ## What a read knows -/

/-- What a read may write back: values that it has found. A reply is the text of a value. -/
def readContract : Contract RedisCommand RedisCommand.Reply (String × V) where
  issues c known := ∀ level key text, c.stored = some (level, key, text) →
    (∃ value, text = J.stringify value) ∧ ∀ value, J.read text = some value → (key, value) ∈ known
  possible
    | .get _ _, reply => ∀ text, reply = .ok (some text) → ∃ value, text = J.stringify value
    | _, _ => True
  told
    | .get _ key, reply => {found | found.1 = key ∧ ∃ text, reply = .ok (some text) ∧ J.read text = some found.2}
    | _, _ => ∅
  issues_mono c known known' hknown hissues level key text hstored := by
    obtain ⟨htext, hvalues⟩ := hissues level key text hstored
    exact ⟨htext, fun value hvalue => hknown (hvalues value hvalue)⟩

/-- What a read returns is what it has found. -/
def Found (key : String) (result : Option V) (known : Set (String × V)) : Prop :=
  ∀ value, result = some value → (key, value) ∈ known

variable {J} {known : Set (String × V)} {key : String} {level : CacheLevel}

theorem informed_getFromLevel {A : Option V → Set (String × V) → Prop}
    (hA : ∀ result known, Found key result known → (∀ value, result = some value → J.readBack value = some value) →
      A result known) : (getFromLevel J level key).Informed (readContract J) A known := by
  refine ⟨?_, fun reply hpossible => ?_⟩
  · intro level key text hstored
    cases hstored
  · cases reply with
    | error error =>
      refine hA none _ ?_ ?_
      · intro value hvalue
        cases hvalue
      · intro value hvalue
        cases hvalue
    | ok text =>
      refine hA (text.bind J.read) _ ?_ ?_
      · intro value hvalue
        obtain ⟨text, rfl, hread⟩ := Option.bind_eq_some_iff.mp hvalue
        exact .inr ⟨rfl, text, rfl, hread⟩
      · intro value hvalue
        obtain ⟨text, rfl, hread⟩ := Option.bind_eq_some_iff.mp hvalue
        obtain ⟨given, rfl⟩ := hpossible text rfl
        exact JsonCodec.readBack_of_read hread

theorem informed_setToLevel {A : Unit → Set (String × V) → Prop} {value : V} {ttl : ℤ}
    (hknown : (key, value) ∈ known) (hread : J.readBack value = some value) (hA : A () known) :
    (setToLevel J level key value ttl).Informed (readContract J) A known := by
  have hissues : ∀ c : RedisCommand, c.stored = some (level, key, J.stringify value) →
      (readContract J).issues c known := by
    intro c hc level' key' text hstored
    obtain ⟨-, rfl, rfl⟩ : level = level' ∧ key = key' ∧ J.stringify value = text := by
      simpa using hc.symm.trans hstored
    refine ⟨⟨value, rfl⟩, fun value' hvalue => ?_⟩
    obtain rfl := Option.some.inj (hread.symm.trans hvalue)
    exact hknown
  rw [setToLevel]
  split
  · refine ⟨hissues _ rfl, fun reply _ => ?_⟩
    change A () (known ∪ ∅)
    rwa [Set.union_empty]
  · refine ⟨hissues _ rfl, fun reply _ => ?_⟩
    change A () (known ∪ ∅)
    rwa [Set.union_empty]

/-- **What a read writes back and returns is what it has found.** -/
theorem informed_get : (get J key).Informed (readContract J) (Found key) known := by
  refine Prog.informed_bind (informed_getFromLevel fun l1Result known₁ hfound₁ _ => ?_)
  cases l1Result with
  | some value => exact hfound₁
  | none =>
    refine Prog.informed_bind (informed_getFromLevel fun l2Result known₂ hfound₂ hread₂ => ?_)
    cases l2Result with
    | some value =>
      exact Prog.informed_bind (informed_setToLevel (hfound₂ value rfl) (hread₂ value rfl) hfound₂)
    | none =>
      refine Prog.informed_bind (informed_getFromLevel fun l3Result known₃ hfound₃ hread₃ => ?_)
      cases l3Result with
      | some value =>
        refine Prog.informed_bind (informed_setToLevel (hfound₃ value rfl) (hread₃ value rfl) ?_)
        exact Prog.informed_bind (informed_setToLevel (hfound₃ value rfl) (hread₃ value rfl) hfound₃)
      | none => exact hfound₃

/-! ## What a command does -/

variable {c : RedisCommand} {now : ℚ} {s : Levels} {entry : Entry}

/-- What is on a level after a command was there before, unless the command overwrites it, or is
what it stores. -/
theorem exec_entry (h : (c.exec now s).2 level key = some entry) :
    s level key = some entry ∧ c.target ≠ some (level, key) ∨ c.stored = some (level, key, entry.text) := by
  -- a command that puts one entry
  have hput : ∀ {level' key' new}, s.put level' key' new level key = some entry → c.target = some (level', key') →
      (∀ given, new = some given → c.stored = some (level', key', given.text)) →
        s level key = some entry ∧ c.target ≠ some (level, key) ∨ c.stored = some (level, key, entry.text) := by
    intro level' key' new hentry htarget hstored
    by_cases hsame : level = level' ∧ key = key'
    · obtain ⟨rfl, rfl⟩ := hsame
      rw [put_self] at hentry
      exact .inr (hstored entry hentry)
    · refine .inl ⟨?_, fun heq => hsame ?_⟩
      · by_cases hkey : key = key'
        · rwa [put_of_ne_level _ fun hlevel => hsame ⟨hlevel, hkey⟩] at hentry
        · rwa [put_of_ne_key _ hkey] at hentry
      · obtain ⟨rfl, rfl⟩ := Prod.mk.inj (Option.some.inj (htarget.symm.trans heq))
        exact ⟨rfl, rfl⟩
  cases c with
  | get level' key' => exact .inl ⟨h, fun heq => by cases heq⟩
  | setex level' key' ttl text =>
    refine hput h rfl fun given hgiven => ?_
    cases hgiven
    rfl
  | set level' key' text =>
    refine hput h rfl fun given hgiven => ?_
    cases hgiven
    rfl
  | del level' key' =>
    refine hput h rfl fun given hgiven => ?_
    cases hgiven

theorem exists_of_lookup {text : String} (h : s.lookup now level key = some text) :
    ∃ entry, s level key = some entry ∧ entry.text = text := by
  obtain ⟨entry, hentry, rfl⟩ := Option.map_eq_some_iff.mp h
  exact ⟨entry, (Option.filter_eq_some_iff.mp hentry).1, rfl⟩

theorem target_of_stored {text : String} (h : c.stored = some (level, key, text)) : c.target = some (level, key) := by
  cases c with
  | get level' key' => cases h
  | setex level' key' ttl text' =>
    obtain ⟨rfl, rfl, rfl⟩ : level' = level ∧ key' = key ∧ text' = text := by simpa [RedisCommand.stored] using h
    rfl
  | set level' key' text' =>
    obtain ⟨rfl, rfl, rfl⟩ : level' = level ∧ key' = key ∧ text' = text := by simpa [RedisCommand.stored] using h
    rfl
  | del level' key' => cases h

/-- What a `set` or a `del` does on a level: one command. -/
theorem begin_each {call : CacheCall V} {programs : CacheLevel → CacheProg Unit} (h : call.begin J = .each programs)
    (level : CacheLevel) : ∃ c k, programs level = .call c k ∧ (∀ r, k r = .ret ()) ∧
      c.target = some (level, call.key) ∧ call.isGet = false ∧
      ∀ text, c.stored = some (level, call.key, text) → ∃ value ttl, call = .set call.key value ttl ∧
        text = J.stringify value := by
  cases call with
  | get key => cases h
  | set key value ttl =>
    obtain rfl := Rest.each.inj h
    rw [set, setToLevel]
    split
    · refine ⟨_, _, rfl, fun _ => rfl, rfl, rfl, fun text hstored => ⟨value, ttl, rfl, ?_⟩⟩
      exact (by simpa [RedisCommand.stored, eq_comm] using hstored : _ ∧ _).2
    · refine ⟨_, _, rfl, fun _ => rfl, rfl, rfl, fun text hstored => ⟨value, ttl, rfl, ?_⟩⟩
      exact (by simpa [RedisCommand.stored, eq_comm] using hstored : _ ∧ _).2
  | del key =>
    obtain rfl := Rest.each.inj h
    refine ⟨_, _, rfl, fun _ => rfl, rfl, rfl, fun text hstored => ?_⟩
    cases hstored

/-! ## What the steps keep -/

variable (J) (calls : ι → CacheCall V)

/-- What holds of the rest of a call. -/
def RestOk (t : Traffic ι V) (i : ι) : Rest V → Prop
  | .get rest => (calls i).isGet = true ∧
      rest.Informed (readContract J) (Found (calls i).key) {found | Backed J calls t i found.1 found.2}
  | .each rest => ∃ programs, (calls i).begin J = .each programs ∧ ∀ level, rest level = programs level ∨ rest level = .ret ()

/-- What the steps keep. -/
structure Sound (t : Traffic ι V) : Prop where
  levels : ∀ level key entry, t.levels level key = some entry → (∃ value, entry.text = J.stringify value) ∧
    ∀ value, J.read entry.text = some value → Held J calls t level key value
  earlier : ∀ i j, t.earlier i j → t.resolved i
  rest : ∀ i r, t.running i = some r → RestOk J calls t i r.rest

/-- Calls have gone on, and others have started. -/
structure Extends (t t' : Traffic ι V) : Prop where
  kept : ∀ i r, t.running i = some r →
    ∃ r', t'.running i = some r' ∧ r'.earlier = r.earlier ∧ (r.rest.resolved → r'.rest.resolved)

variable {J} {calls} {t t' : Traffic ι V} {i j g : ι} {value : V}

theorem started_of_resolved (h : t.resolved i) : (t.running i).isSome := by
  obtain ⟨r, hr, -⟩ := (Option.any_eq_true _ _).mp h
  rw [hr]
  rfl

theorem started_of_reached (h : t.reached level i) : (t.running i).isSome := by
  cases hr : t.running i with
  | none =>
    rw [Traffic.reached, hr] at h
    cases h
  | some r => rfl

/-- A `set` or a `del` that has resolved has reached every level. -/
theorem Sound.reached_of_resolved (hsound : Sound J calls t) (hcall : (calls i).isGet = false) (h : t.resolved i)
    (level : CacheLevel) : t.reached level i := by
  obtain ⟨⟨earlier, rest⟩, hr, hresolved⟩ := (Option.any_eq_true _ _).mp h
  rw [Traffic.reached, hr]
  cases rest with
  | get rest =>
    have hok := (hsound.rest i _ hr).1
    rw [hcall] at hok
    cases hok
  | each rest =>
    simp only [Rest.resolved, Bool.and_eq_true] at hresolved
    cases level with
    | l1 => exact hresolved.1.1
    | l2 => exact hresolved.1.2
    | l3 => exact hresolved.2

namespace Extends

theorem started (h : Extends t t') (hi : (t.running i).isSome) : (t'.running i).isSome := by
  obtain ⟨r, hr⟩ := Option.isSome_iff_exists.mp hi
  obtain ⟨r', hr', -⟩ := h.kept i r hr
  rw [hr']
  rfl

theorem earlier_eq (h : Extends t t') (hj : (t.running j).isSome) (i : ι) : t'.earlier i j = t.earlier i j := by
  obtain ⟨r, hr⟩ := Option.isSome_iff_exists.mp hj
  obtain ⟨r', hr', hearlier, -⟩ := h.kept j r hr
  rw [Traffic.earlier, Traffic.earlier, hr, hr', Option.any_some, Option.any_some, hearlier]

theorem resolved (h : Extends t t') (hi : t.resolved i) : t'.resolved i := by
  obtain ⟨r, hr, hresolved⟩ := (Option.any_eq_true _ _).mp hi
  obtain ⟨r', hr', -, hkept⟩ := h.kept i r hr
  rw [Traffic.resolved, hr']
  exact hkept hresolved

theorem source (h : Extends t t') (hsource : Source J calls t key value i) : Source J calls t' key value i := by
  obtain ⟨given, ttl, hcall, hread, hstarted⟩ := hsource
  exact ⟨given, ttl, hcall, hread, h.started hstarted⟩

end Extends

theorem Held.extends (hheld : Held J calls t level key value) (h : Extends t t')
    (hreached : ∀ j, (calls j).key = key → t'.reached level j → t.reached level j) :
    Held J calls t' level key value := by
  obtain ⟨i, hsource, hnot⟩ := hheld
  refine ⟨i, h.source hsource, fun j hkey hj => ?_⟩
  have hbefore := hreached j hkey hj
  rw [h.earlier_eq (started_of_reached hbefore)]
  exact hnot j hkey hbefore

theorem Backed.extends (hbacked : Backed J calls t g key value) (hsound : Sound J calls t) (h : Extends t t')
    (hg : (t.running g).isSome) : Backed J calls t' g key value := by
  obtain ⟨i, hsource, hnot⟩ := hbacked
  refine ⟨i, h.source hsource, fun j hkey hcall hj => ?_⟩
  rw [h.earlier_eq hg] at hj
  rw [h.earlier_eq (started_of_resolved (hsound.earlier j g hj))]
  exact hnot j hkey hcall hj

/-- What a read finds on a level may be returned. -/
theorem Held.backed (hheld : Held J calls t level key value) (hsound : Sound J calls t) (g : ι) :
    Backed J calls t g key value := by
  obtain ⟨i, hsource, hnot⟩ := hheld
  refine ⟨i, hsource, fun j hkey hcall hj => ?_⟩
  exact hnot j hkey (hsound.reached_of_resolved hcall (hsound.earlier j g hj) level)

theorem RestOk.extends {rest : Rest V} (hok : RestOk J calls t i rest) (hsound : Sound J calls t) (h : Extends t t')
    (hi : (t.running i).isSome) : RestOk J calls t' i rest := by
  cases rest with
  | get rest =>
    refine ⟨hok.1, hok.2.mono (fun _ _ _ hknown hfound value hvalue => hknown (hfound value hvalue)) ?_⟩
    exact fun found hfound => Backed.extends hfound hsound h hi
  | each rest => exact hok

/-- What a command tells a read is on a level. -/
theorem Sound.told (hsound : Sound J calls t) (c : RedisCommand) (now : ℚ) (g : ι) :
    (readContract J).possible c (c.exec now t.levels).1 ∧
      ∀ found ∈ (readContract J).told c (c.exec now t.levels).1, Backed J calls t g found.1 found.2 := by
  cases c with
  | get level key =>
    refine ⟨fun text htext => ?_, ?_⟩
    · obtain ⟨entry, hentry, rfl⟩ := exists_of_lookup (Except.ok.inj htext)
      exact (hsound.levels level key entry hentry).1
    · rintro ⟨key', value⟩ ⟨rfl, text, htext, hread⟩
      obtain ⟨entry, hentry, rfl⟩ := exists_of_lookup (Except.ok.inj htext)
      exact ((hsound.levels level _ entry hentry).2 value hread).backed hsound g
  | setex level key ttl text => exact ⟨trivial, fun found hfound => hfound.elim⟩
  | set level key text => exact ⟨trivial, fun found hfound => hfound.elim⟩
  | del level key => exact ⟨trivial, fun found hfound => hfound.elim⟩

theorem told_failed (c : RedisCommand) (error : RedisError) :
    (readContract J).possible c (c.failed error) ∧ ∀ found, found ∉ (readContract J).told c (c.failed error) := by
  cases c with
  | get level key =>
    refine ⟨fun text htext => ?_, ?_⟩
    · cases htext
    · rintro found ⟨-, text, htext, -⟩
      cases htext
  | setex level key ttl text => exact ⟨trivial, fun found hfound => hfound.elim⟩
  | set level key text => exact ⟨trivial, fun found hfound => hfound.elim⟩
  | del level key => exact ⟨trivial, fun found hfound => hfound.elim⟩

/-! ## Each step -/

variable [DecidableEq ι] {levels : Levels} {earlier : ι → Bool} {rest rest' : Rest V}

/-- A call has gone on. -/
def Traffic.goes (t : Traffic ι V) (i : ι) (earlier : ι → Bool) (levels : Levels) (rest : Rest V) : Traffic ι V :=
  ⟨levels, Function.update t.running i (some ⟨earlier, rest⟩)⟩

theorem running_goes_of_ne (hj : j ≠ i) : (t.goes i earlier levels rest).running j = t.running j :=
  Function.update_of_ne hj ..

theorem running_goes_self : (t.goes i earlier levels rest).running i = some ⟨earlier, rest⟩ :=
  Function.update_self ..

theorem goes_self (hi : t.running i = some ⟨earlier, rest⟩) : t.goes i earlier t.levels rest = t := by
  rw [Traffic.goes, ← hi, Function.update_eq_self]

theorem issue_ret {α : Type} {now : ℚ} {error : Option RedisError} (a : α) :
    issue now error (.ret a : CacheProg α) levels = (.ret a, levels) := rfl

theorem reached_goes_of_ne (hj : j ≠ i) : (t.goes i earlier levels rest).reached level j = t.reached level j := by
  rw [Traffic.reached, running_goes_of_ne hj]
  rfl

theorem extends_goes (hi : t.running i = some ⟨earlier, rest⟩) (hrest : rest.resolved = false) (levels : Levels)
    (rest' : Rest V) : Extends t (t.goes i earlier levels rest') where
  kept := by
    intro j r hr
    by_cases hj : j = i
    · subst hj
      obtain rfl := Option.some.inj (hi.symm.trans hr)
      refine ⟨_, running_goes_self, rfl, fun hresolved => ?_⟩
      rw [hrest] at hresolved
      cases hresolved
    · exact ⟨r, (running_goes_of_ne hj).trans hr, rfl, id⟩

/-- A call goes on: what has to be shown of the levels, and of its rest. -/
theorem Sound.goes (hsound : Sound J calls t) (hi : t.running i = some ⟨earlier, rest⟩) (hrest : rest.resolved = false)
    (hlevels : ∀ level key entry, levels level key = some entry → (∃ value, entry.text = J.stringify value) ∧
      ∀ value, J.read entry.text = some value → Held J calls (t.goes i earlier levels rest') level key value)
    (hok : RestOk J calls (t.goes i earlier levels rest') i rest') :
    Sound J calls (t.goes i earlier levels rest') := by
  have hext := extends_goes hi hrest levels rest'
  refine ⟨hlevels, ?_, ?_⟩
  · intro a b hab
    by_cases hb : (t.running b).isSome
    · rw [hext.earlier_eq hb] at hab
      exact hext.resolved (hsound.earlier a b hab)
    · have hne : b ≠ i := by
        rintro rfl
        rw [hi] at hb
        exact hb rfl
      rw [Traffic.earlier, running_goes_of_ne hne, Option.not_isSome_iff_eq_none.mp hb] at hab
      cases hab
  · intro j r hr
    by_cases hj : j = i
    · subst hj
      obtain rfl := Option.some.inj (running_goes_self.symm.trans hr)
      exact hok
    · rw [running_goes_of_ne hj] at hr
      exact (hsound.rest j r hr).extends hsound hext (by rw [hr]; rfl)

/-- A read goes on. -/
theorem Sound.serve_get {c : RedisCommand} {k : c.Reply → CacheProg (Option V)} {now : ℚ} {error : Option RedisError}
    (hsound : Sound J calls t) (hi : t.running i = some ⟨earlier, .get (.call c k)⟩)
    (horderly : error = none → ∀ level key text, c.stored = some (level, key, text) →
      ∀ value, J.read text = some value → Held J calls t level key value) :
    Sound J calls (t.goes i earlier (issue now error (.call c k) t.levels).2
      (.get (issue now error (.call c k) t.levels).1)) := by
  obtain ⟨hget, hissues, hreplies⟩ := hsound.rest i _ hi
  have hstarted : (t.running i).isSome := by rw [hi]; rfl
  -- no other call moves, so what a call has been told still holds
  have hheld : ∀ {levels rest level key value}, Held J calls t level key value →
      Held J calls (t.goes i earlier levels (.get rest)) level key value := by
    intro levels rest level key value hheld
    refine hheld.extends (extends_goes hi rfl levels _) fun j _ hj => ?_
    by_cases hne : j = i
    · subst hne
      rw [Traffic.reached, running_goes_self] at hj
      cases hj
    · rwa [reached_goes_of_ne hne] at hj
  have hrest : ∀ {levels reply}, (readContract J).possible c reply →
      (∀ found ∈ (readContract J).told c reply, Backed J calls t i found.1 found.2) →
        RestOk J calls (t.goes i earlier levels (.get (k reply))) i (.get (k reply)) := by
    intro levels reply hpossible htold
    refine RestOk.extends ⟨hget, (hreplies reply hpossible).mono ?_ ?_⟩ hsound (extends_goes hi rfl levels _) hstarted
    · exact fun _ _ _ hknown hfound value hvalue => hknown (hfound value hvalue)
    · rintro found (hfound | hfound)
      · exact hfound
      · exact htold found hfound
  cases error with
  | some error =>
    -- a failed command changes no level, and tells nothing
    obtain ⟨hpossible, htold⟩ := told_failed (J := J) c error
    refine hsound.goes hi rfl ?_ (hrest hpossible fun found hfound => absurd hfound (htold found))
    intro level key entry hentry
    obtain ⟨htext, hvalues⟩ := hsound.levels level key entry hentry
    exact ⟨htext, fun value hvalue => hheld (hvalues value hvalue)⟩
  | none =>
    obtain ⟨hpossible, htold⟩ := hsound.told c now i
    refine hsound.goes hi rfl ?_ (hrest hpossible htold)
    intro level key entry hentry
    -- an entry is an old one, or the one that the command has stored
    rcases exec_entry hentry with ⟨hbefore, -⟩ | hstored
    · obtain ⟨htext, hvalues⟩ := hsound.levels level key entry hbefore
      exact ⟨htext, fun value hvalue => hheld (hvalues value hvalue)⟩
    · exact ⟨(hissues level key entry.text hstored).1, fun value hvalue =>
        hheld (horderly rfl level key entry.text hstored value hvalue)⟩

/-- A `set` or a `del` goes on on a level. -/
theorem Sound.serve_each {programs : CacheLevel → CacheProg Unit} {now : ℚ} {error : Option RedisError}
    (hsound : Sound J calls t) (hi : t.running i = some ⟨earlier, .each programs⟩)
    (horderly : (programs level).returned = false → error = none) :
    Sound J calls (t.goes i earlier (issue now error (programs level) t.levels).2
      (.each (Function.update programs level (issue now error (programs level) t.levels).1))) := by
  obtain ⟨begun, hbegin, hprograms⟩ := hsound.rest i _ hi
  rcases hprograms level with hprogram | hreturned
  · obtain ⟨c, k, hcall, hk, htarget, -, hstored⟩ := begin_each hbegin level
    rw [hcall] at hprogram
    obtain rfl : error = none := horderly (by rw [hprogram]; rfl)
    have hunresolved : (Rest.each (V := V) programs).resolved = false := by
      cases level <;> simp [Rest.resolved, hprogram, Prog.returned]
    -- nobody starts after the call has resolved, since it has not
    have hnever : ∀ j, t.earlier i j = false := by
      intro j
      by_contra hij
      have hresolved := hsound.earlier i j (Bool.not_eq_false _ ▸ hij)
      rw [Traffic.resolved, hi] at hresolved
      exact absurd hresolved (by simp [hunresolved])
    rw [hprogram, issue, hk]
    have hext := extends_goes hi hunresolved (c.exec now t.levels).2 (.each (Function.update programs level (.ret ())))
    refine hsound.goes hi hunresolved ?_ ⟨begun, hbegin, fun level' => ?_⟩
    · intro level' key entry hentry
      rcases exec_entry hentry with ⟨hbefore, hother⟩ | hnew
      · obtain ⟨htext, hvalues⟩ := hsound.levels level' key entry hbefore
        refine ⟨htext, fun value hvalue => (hvalues value hvalue).extends hext fun j hkey hj => ?_⟩
        by_cases hne : j = i
        · -- it has just reached another level, or it is a call on another key
          subst hne
          have hlevel : level' ≠ level := by
            rintro rfl
            exact hother (by rw [htarget, hkey])
          rw [Traffic.reached, running_goes_self] at hj
          rw [Traffic.reached, hi]
          simpa [Function.update_of_ne hlevel] using hj
        · rwa [reached_goes_of_ne hne] at hj
      · obtain ⟨rfl, rfl⟩ := Prod.mk.inj (Option.some.inj (htarget.symm.trans (target_of_stored hnew)))
        obtain ⟨given, ttl, hset, htext⟩ := hstored entry.text hnew
        refine ⟨⟨given, htext⟩, fun value hvalue => ⟨i, ⟨given, ttl, hset, ?_, ?_⟩, fun j _ hj hij => ?_⟩⟩
        · rwa [htext] at hvalue
        · rw [running_goes_self]
          rfl
        · by_cases hne : j = i
          · subst hne
            rw [hext.earlier_eq (by rw [hi]; rfl), hnever] at hij
            cases hij
          · rw [reached_goes_of_ne hne] at hj
            rw [hext.earlier_eq (started_of_reached hj), hnever] at hij
            cases hij
    · by_cases hlevel : level' = level
      · subst hlevel
        exact .inr (Function.update_self ..)
      · rw [Function.update_of_ne hlevel]
        exact hprograms level'
  · -- the command has been executed
    rw [hreturned, issue_ret, ← hreturned, Function.update_eq_self, goes_self hi]
    exact hsound

/-- A call starts. -/
theorem Sound.serve_start (hsound : Sound J calls t) (hi : t.running i = none) :
    Sound J calls (t.goes i t.resolved t.levels ((calls i).begin J)) := by
  have hext : Extends t (t.goes i t.resolved t.levels ((calls i).begin J)) := by
    refine ⟨fun j r hr => ⟨r, ?_, rfl, id⟩⟩
    have hne : j ≠ i := by
      rintro rfl
      rw [hi] at hr
      cases hr
    rwa [running_goes_of_ne hne]
  refine ⟨?_, ?_, ?_⟩
  · intro level key entry hentry
    obtain ⟨htext, hvalues⟩ := hsound.levels level key entry hentry
    refine ⟨htext, fun value hvalue => (hvalues value hvalue).extends hext fun j _ hj => ?_⟩
    by_cases hne : j = i
    · subst hne
      rw [Traffic.reached, running_goes_self] at hj
      split at hj
      next earlier programs hrunning =>
        -- no program of a write has ended yet: it has not reached the level
        obtain ⟨c, k, hcall, -⟩ := begin_each (Running.mk.inj (Option.some.inj hrunning)).2 level
        rw [hcall] at hj
        cases hj
      · cases hj
    · rwa [reached_goes_of_ne hne] at hj
  · intro a b hab
    by_cases hb : b = i
    · subst hb
      rw [Traffic.earlier, running_goes_self] at hab
      exact hext.resolved hab
    · rw [Traffic.earlier, running_goes_of_ne hb] at hab
      exact hext.resolved (hsound.earlier a b hab)
  · intro j r hr
    by_cases hj : j = i
    · subst hj
      obtain rfl := Option.some.inj (running_goes_self.symm.trans hr)
      cases hcall : calls j with
      | get key => exact ⟨by rw [hcall]; rfl, by rw [hcall]; exact informed_get⟩
      | set key value ttl => exact ⟨_, by rw [hcall]; rfl, fun _ => .inl rfl⟩
      | del key => exact ⟨_, by rw [hcall]; rfl, fun _ => .inl rfl⟩
    · rw [running_goes_of_ne hj] at hr
      exact (hsound.rest j r hr).extends hsound hext (by rw [hr]; rfl)

/-- **Every step keeps what the steps keep**, if it writes back no value that was replaced. -/
theorem Sound.serve (hsound : Sound J calls t) {e : Event ι} (horderly : Orderly J calls t e) :
    Sound J calls (serve J calls t e) := by
  cases e with
  | start i =>
    rw [LevelCache.serve]
    cases hi : t.running i with
    | some r => exact hsound
    | none => exact hsound.serve_start hi
  | command i level now error =>
    rw [Orderly] at horderly
    rw [LevelCache.serve]
    cases hi : t.running i with
    | none => exact hsound
    | some r =>
      obtain ⟨earlier, rest⟩ := r
      rw [hi] at horderly
      cases rest with
      | get rest =>
        cases rest with
        | ret result => exact (congrArg (Sound J calls) (goes_self hi)).mpr hsound
        | fail e => exact e.elim
        | call c k => exact hsound.serve_get hi fun herror level key text hstored => horderly herror level key text hstored
      | each programs => exact hsound.serve_each hi horderly

omit [DecidableEq ι] in
theorem Sound.current (hsound : Sound J calls t) : Current J calls t := by
  intro g value hg
  rw [Traffic.returned] at hg
  split at hg
  next earlier rest hrunning =>
    obtain rfl := Prog.result_eq_some.mp (Option.join_eq_some_iff.mp hg)
    exact (hsound.rest g _ hrunning).2 value rfl
  · cases hg

omit [DecidableEq ι] in
theorem sound_start : Sound J calls (Traffic.start : Traffic ι V) where
  levels := by
    intro level key entry hentry
    cases hentry
  earlier := by
    intro i j hij
    cases hij
  rest := by
    intro i r hr
    cases hr

/-- **No value comes back**, if none is written back after a call that replaces it, and the commands
of `set` and `del` are executed. -/
theorem current_of_orderly (events : List (Event ι))
    (horderly : Along (serve J calls) (Orderly J calls) Traffic.start events) :
    Throughout (serve J calls) (Current J calls) Traffic.start events :=
  (throughout_of_invariant (fun _ _ hsound horderly => hsound.serve horderly) sound_start horderly).mono
    fun _ hsound => hsound.current

/-- A value is stored, read, replaced, read, deleted, and read again. -/
def readAndReplaced : Fin 6 → CacheCall Bool
  | 0 => .set "market_price:BTC" true (some 100)
  | 2 => .set "market_price:BTC" false (some 100)
  | 4 => .del "market_price:BTC"
  | _ => .get "market_price:BTC"

/-- `current_of_orderly` on a value that is found on the second level and written back, before it is
replaced and deleted. -/
theorem current_of_orderly_found :
    Throughout (serve booleans readAndReplaced) (Current booleans readAndReplaced) Traffic.start
      [.start 0, .command 0 .l1 0 none, .command 0 .l2 0 none, .command 0 .l3 0 none,
        .start 1, .command 1 .l1 61 none, .command 1 .l1 61 none, .command 1 .l1 61 none,
        .start 2, .command 2 .l1 62 none, .command 2 .l2 62 none, .command 2 .l3 62 none,
        .start 3, .command 3 .l1 63 none, .start 4, .command 4 .l1 64 none, .command 4 .l2 64 none,
        .command 4 .l3 64 none, .start 5, .command 5 .l1 65 none] := by
  refine current_of_orderly _ ?_
  -- a step that stores nothing
  have hnothing : ∀ {P : CacheLevel → String → String → Prop} {o : Option (CacheLevel × String × String)}, o = none →
      ∀ level key text, o = some (level, key, text) → P level key text := by
    intro P o ho level key text hstored
    cases ho.symm.trans hstored
  refine ⟨trivial, fun _ => rfl, fun _ => rfl, fun _ => rfl, trivial, fun _ => hnothing rfl,
    fun _ => hnothing (by decide +kernel), fun _ level key text hstored value hread => ?_, trivial, fun _ => rfl,
    fun _ => rfl, fun _ => rfl, trivial, fun _ => hnothing rfl, trivial, fun _ => rfl, fun _ => rfl, fun _ => rfl,
    trivial, fun _ => hnothing rfl, trivial⟩
  have hfound : some (CacheLevel.l1, "market_price:BTC", "true") = some (level, key, text) :=
    Eq.trans (by decide +kernel) hstored
  obtain ⟨rfl, rfl, rfl⟩ : CacheLevel.l1 = level ∧ "market_price:BTC" = key ∧ "true" = text := by simpa using hfound
  exact ⟨0, ⟨true, some 100, rfl, hread, rfl⟩, by decide +kernel⟩

/-! ### A value that comes back -/

/-- A value is stored, read, deleted, and read again. -/
def readAndDeleted : Fin 4 → CacheCall Bool
  | 0 => .set "market_price:BTC" true (some 100)
  | 1 => .get "market_price:BTC"
  | 2 => .del "market_price:BTC"
  | 3 => .get "market_price:BTC"

/-- The value is stored at 0, and found on the second level at 61. -/
def foundBelow : List (Event (Fin 4)) :=
  [.start 0, .command 0 .l1 0 none, .command 0 .l2 0 none, .command 0 .l3 0 none,
    .start 1, .command 1 .l1 61 none, .command 1 .l1 61 none]

/-- **A deleted value comes back**: the read that had found it writes it back after the `del` has
resolved, and the next read returns it. -/
theorem deleted_value_returned :
    ¬ Current booleans readAndDeleted (run (serve booleans readAndDeleted) Traffic.start
      (foundBelow ++ [.start 2, .command 2 .l1 61 none, .command 2 .l2 61 none, .command 2 .l3 61 none,
        .command 1 .l1 61 none, .start 3, .command 3 .l1 62 none])) := by
  intro hcurrent
  obtain ⟨i, ⟨given, ttl, hset, -⟩, hnot⟩ := hcurrent 3 true (by decide +kernel)
  obtain rfl : i = 0 := by
    revert hset
    fin_cases i <;> simp [readAndDeleted]
  exact hnot 2 rfl rfl (by decide +kernel) (by decide +kernel)

end LevelCache
